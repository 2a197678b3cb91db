/-
What the root of a graph needs. A node is added only for an import of a node that is there, and only where no import of
that node had its key before, so that the import becomes an edge to it: every node is needed by the root.

- `Graph.whole_of_build`: the root of a graph that is built leads to every node of it.
-/
import Mathlib.Logic.Relation
import TypedScript.Proofs.Linking.Edges

namespace TypedScript.Graph

variable {natives : List NativeModule} {loader : Loader} {g g' : Graph} {m : Module} {i j parent child current : Nat}
  {node : GraphNode} {path rootPath : String} {root : Block}

/-- one node has an edge to another -/
def Imports (g : Graph) (i j : Nat) : Prop := j ∈ g.childNodes i

/-- the root leads to a node -/
def Needed (g : Graph) (i : Nat) : Prop := Relation.ReflTransGen g.Imports g.root i

theorem imports_iff : g.Imports i j ↔ ∃ children, (g.node? i).map GraphNode.children = some children ∧
    ∃ path, (path, j) ∈ children := by
  unfold Imports childNodes
  cases g.node? i <;> simp

theorem imports_add (h : g.Imports i j) : (g.add m).2.Imports i j := by
  obtain ⟨children, hchildren, hedge⟩ := imports_iff.1 h
  obtain ⟨node, hnode, _⟩ := Option.map_eq_some_iff.1 hchildren
  refine imports_iff.2 ⟨children, ?_, hedge⟩
  rw [node?_add, if_neg (Nat.ne_of_lt (lt_of_node? hnode))]
  exact hchildren

theorem imports_addEdge (h : g.Imports i j) : (g.addEdge parent path child).Imports i j := by
  obtain ⟨children, hchildren, path', hedge⟩ := imports_iff.1 h
  obtain ⟨node, hnode, rfl⟩ := Option.map_eq_some_iff.1 hchildren
  refine imports_iff.2 ⟨_, by rw [children_addEdge, hnode]; rfl, path', ?_⟩
  dsimp only
  split
  · exact List.mem_append_left _ hedge
  · exact hedge

/-- an import of a path that its node had no import of becomes an edge -/
theorem imports_of_new (hnode : g.node? parent = some node) (hnew : path ∉ node.children.map Prod.fst) :
    (g.addEdge parent path child).Imports parent child := by
  refine imports_iff.2 ⟨_, by rw [children_addEdge, hnode]; rfl, path, ?_⟩
  dsimp only
  rw [if_pos ⟨rfl, hnew⟩]
  simp

theorem root_addEdge (g : Graph) (parent : Nat) (path : String) (child : Nat) :
    (g.addEdge parent path child).root = g.root := by
  unfold addEdge
  split <;> rfl

theorem Needed.add (h : g.Needed i) : (g.add m).2.Needed i := by
  induction h with
  | refl => exact .refl
  | tail _ hedge ih => exact ih.tail (imports_add hedge)

theorem Needed.addEdge (h : g.Needed i) : (g.addEdge parent path child).Needed i := by
  unfold Needed
  rw [root_addEdge]
  induction h with
  | refl => exact .refl
  | tail _ hedge ih => exact ih.tail (imports_addEdge hedge)

/-- the nodes of a graph are what its root needs -/
structure Whole (g : Graph) : Prop where
  root : g.root < g.nodes.size
  needed : ∀ i < g.nodes.size, g.Needed i

theorem Whole.addEdge (h : g.Whole) : (g.addEdge parent path child).Whole := by
  refine ⟨?_, fun i hi => ?_⟩
  · rw [root_addEdge, size_addEdge]
    exact h.root
  · rw [size_addEdge] at hi
    exact (h.needed i hi).addEdge

/-- a node is added together with an edge to it -/
theorem Whole.add (h : g.Whole) (hnode : g.node? current = some node) (hnew : path ∉ node.children.map Prod.fst) :
    ((g.add m).2.addEdge current path g.nodes.size).Whole := by
  have hsize := g.size_add m
  refine ⟨?_, fun i hi => ?_⟩
  · rw [root_addEdge, size_addEdge, hsize]
    exact Nat.lt_succ_of_lt h.root
  rw [size_addEdge, hsize] at hi
  by_cases hold : i < g.nodes.size
  · exact (h.needed i hold).add.addEdge
  obtain rfl : i = g.nodes.size := by omega
  have hcurrent : (g.add m).2.node? current = some node := by
    rw [node?_add, if_neg (Nat.ne_of_lt (lt_of_node? hnode))]
    exact hnode
  exact (h.needed current (lt_of_node? hnode)).add.addEdge.tail (imports_of_new hcurrent hnew)

/-! ## The steps of the building -/

theorem whole_import {new : Bool} (h : g.Led natives) (hwhole : g.Whole)
    (hcurrent : (g.node? current).map GraphNode.module = some m)
    (ht : target loader natives current path g = .ok (child, new, g')) : (g'.addEdge current path child).Whole := by
  obtain ⟨_, _, _, hsteps⟩ := target_led h hcurrent ht
  rcases hsteps with rfl | ⟨hnew, m', hadd⟩
  · exact hwhole.addEdge
  obtain ⟨rfl, rfl⟩ := Prod.mk.inj hadd
  obtain ⟨node, hnode, rfl⟩ := Option.map_eq_some_iff.1 hcurrent
  refine hwhole.add hnode fun hmem => ?_
  obtain ⟨c, hc, rfl⟩ := List.mem_map.1 hmem
  -- an import of the path has put its key into the index
  have hedge := h.edges current node hnode c hc
  rw [hnew] at hedge
  simp at hedge

/-- the root is a node and leads to every node -/
theorem whole_of_build (h : build rootPath root loader natives = .ok g) : g.Whole := by
  refine (grow_led whole_import (led_start natives rootPath root) ⟨Nat.one_pos, fun i hi => ?_⟩ h).2
  obtain rfl : i = 0 := Nat.lt_one_iff.1 hi
  exact .refl

end TypedScript.Graph
