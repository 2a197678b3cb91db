/-
The order in which the modules of a graph can be checked and run: each after the modules it imports. One walk, depth
first along the imports, finds either the order or a ring of modules that need each other.
-/
import TypedScript.Fault
import TypedScript.Linking.Graph

namespace TypedScript.Graph

/-- the walk from a node. `path` holds the nodes the walk is in the middle of, the innermost first, and `done` those it
has left, in the order in which it left them. Meeting a node of the path closes a ring, which is given from that node
around to it again. No node is on the path twice, so that the number of nodes suffices for `depth`. -/
def visit (g : Graph) : (depth : Nat) → (path : List Nat) → (node : Nat) → (done : List Nat) →
    Except (List Nat) (List Nat)
  | 0, _, node, _ => .error [node, node]
  | depth + 1, path, node, done =>
    if node ∈ done then .ok done
    else if node ∈ path then .error (node :: (path.takeWhile (· ≠ node)).reverse ++ [node])
    else do
      let done ← (g.childNodes node).foldlM (fun done child => g.visit depth (node :: path) child done) done
      return done ++ [node]

/-- the nodes that the root needs, each after those it needs itself, or a ring among them -/
def ordered (g : Graph) : Except (List Nat) (List Nat) := g.visit (g.nodes.size + 1) [] g.root []

/-- fails where modules need each other in a ring -/
def detectCycles (g : Graph) : Except GraphError Unit :=
  match g.ordered with
  | .ok _ => .ok ()
  | .error ring => .error (.cycle (" <- ".intercalate (ring.map g.key)))

/-- every module after those it imports, the root last -/
def topologicalOrder (g : Graph) : Except InternalFault (List Nat) :=
  match g.ordered with
  | .ok order => .ok order
  | .error ring => .error (.malformedGraph (g.key (ring.getLast?.getD g.root)))

end TypedScript.Graph
