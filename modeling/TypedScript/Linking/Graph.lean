/-
The graph of the modules a program is made of. It is built breadth first from the root module: an import that names a
native module leads to it, and any other import leads to the module whose text the loader has at the path, seen from the
importing module. A module is known by a key, and one that is known is not loaded again. The first text that cannot be
loaded or read ends the building.
-/
import TypedScript.Tree.Parse
import TypedScript.Linking.Loader
import TypedScript.Linking.Native

namespace TypedScript

inductive ModuleContent
  | source (body : Block)
  | native (module : NativeModule)
deriving Inhabited

structure Module where
  /-- the path of a source module, the reserved name of a native one -/
  key : String
  path : Option String
  content : ModuleContent
deriving Inhabited

namespace Module

def ofSource (path : String) (body : Block) : Module := ⟨path, some path, .source body⟩

def ofNative (native : NativeModule) : Module := ⟨native.name, none, .native native⟩

def isNative (m : Module) : Bool :=
  match m.content with
  | .source _ => false
  | .native _ => true

/-- the paths of the imports that stand directly in the module's body -/
def imports (m : Module) : List String :=
  match m.content with
  | .source body => body.imports
  | .native _ => []

end Module

/-- why the modules of a program cannot be put together -/
inductive GraphError
  /-- the keys of modules that need each other in a ring, the first one again at the end -/
  | cycle (path : String)
  | unreadable (path reason : String)
  | unparsable (path : String) (error : SyntaxError)
deriving DecidableEq, Inhabited

namespace GraphError

def message : GraphError → String
  | cycle path => "import cycle detected: " ++ path
  | unreadable path reason => "failed to load module " ++ quoted path ++ ": " ++ reason
  | unparsable path error => "failed to parse module " ++ quoted path ++ ": " ++ error.message

end GraphError

structure GraphNode where
  module : Module
  /-- the modules imported, each by the path its import names -/
  children : List (String × Nat)
  /-- the modules importing this one -/
  parents : List Nat
deriving Inhabited

structure Graph where
  nodes : Array GraphNode
  /-- the node of each key -/
  index : Table String Nat
  root : Nat
deriving Inhabited

namespace Graph

def node? (g : Graph) (i : Nat) : Option GraphNode := g.nodes[i]?

def key (g : Graph) (i : Nat) : String := ((g.node? i).map (·.module.key)).getD ""

/-- the nodes of the modules that a node's module imports -/
def childNodes (g : Graph) (i : Nat) : List Nat := ((g.node? i).map fun n => n.children.map Prod.snd).getD []

def add (g : Graph) (m : Module) : Nat × Graph :=
  let i := g.nodes.size
  (i, { g with nodes := g.nodes.push ⟨m, [], []⟩, index := g.index.insert m.key i })

/-- note that `parent` imports `child` by a path; a path noted before leads where it led -/
def addEdge (g : Graph) (parent : Nat) (path : String) (child : Nat) : Graph :=
  if ((g.node? parent).map fun n => n.children.any fun c => c.1 = path).getD true then g
  else
    let nodes := g.nodes.modify parent fun n => { n with children := n.children ++ [(path, child)] }
    { g with
      nodes := nodes.modify child fun n =>
        if parent ∈ n.parents then n else { n with parents := n.parents ++ [parent] } }

/-- the module at a path in normal form, read through the loader -/
def loadModule (loader : Loader) (path : String) : Except GraphError Module :=
  match loader.load path with
  | .error e => .error (.unreadable path e.message)
  | .ok source =>
    match parse source with
    | .error e => .error (.unparsable path e)
    | .ok body => .ok (.ofSource path body)

/-- the node an import of `current` leads to, and whether it is new and has imports of its own to follow -/
def target (loader : Loader) (natives : List NativeModule) (current : Nat) (path : String) (g : Graph) :
    Except GraphError (Nat × Bool × Graph) :=
  match natives.find? fun n => n.name = path with
  | some native =>
    match g.index.find? path with
    | some i => .ok (i, false, g)
    | none =>
      let (i, g) := g.add (.ofNative native)
      .ok (i, false, g)
  | none =>
    let importer := ((g.node? current).bind fun n => n.module.path).getD ""
    let resolved := (Path.resolve (.ofString importer) (.ofString path)).render
    match g.index.find? resolved with
    | some i => .ok (i, false, g)
    | none => do
      let m ← loadModule loader resolved
      let (i, g) := g.add m
      return (i, true, g)

/-- follow the imports of a node in their order; the new nodes go behind the others that are waiting -/
def follow (loader : Loader) (natives : List NativeModule) (current : Nat) :
    List String → List Nat → Graph → Except GraphError (List Nat × Graph)
  | [], waiting, g => .ok (waiting, g)
  | path :: paths, waiting, g => do
    let (child, new, g) ← target loader natives current path g
    follow loader natives current paths (if new then waiting ++ [child] else waiting) (g.addEdge current path child)

/-- follow the imports of all nodes that are waiting; every new node takes a path at which the loader has a text and
that none took before, so that `turns` suffice -/
def grow (loader : Loader) (natives : List NativeModule) :
    (turns : Nat) → List Nat → Graph → Except GraphError Graph
  | 0, _, g => .ok g
  | _ + 1, [], g => .ok g
  | turns + 1, current :: waiting, g => do
    let imports := ((g.node? current).map fun n => n.module.imports).getD []
    let (waiting, g) ← follow loader natives current imports waiting g
    grow loader natives turns waiting g

/-- the graph of the modules that a root module needs -/
def build (rootPath : String) (root : Block) (loader : Loader) (natives : List NativeModule) :
    Except GraphError Graph :=
  let (i, g) := (⟨#[], .empty, 0⟩ : Graph).add (.ofSource rootPath root)
  grow loader natives (loader.capacity + 1) [i] { g with root := i }

end Graph

end TypedScript
