/-
The linking of a graph. A graph without rings is linked without fault, each of its modules standing behind those it
imports.

- `link_ok`: a graph that is built and has no rings has a program.
- `linked_made`, `linked_keys`: the modules of a program are those of the graph, each of them once.
-/
import Mathlib.Data.List.Nodup
import TypedScript.Linking.Program
import TypedScript.Proofs.Linking.Build
import TypedScript.Proofs.Linking.Order

namespace TypedScript

namespace Program

variable {g : Graph} {places : Table Nat Nat} {order done : List Nat} {p q : Program}

theorem linksOf_ok (g : Graph) {children : List (String × Nat)}
    (h : ∀ c ∈ children, ∃ place, places.find? c.2 = some place) :
    ∃ links, linksOf g places children = .ok links := by
  induction children with
  | nil => exact ⟨[], rfl⟩
  | cons c children ih =>
    obtain ⟨path, child⟩ := c
    obtain ⟨place, hplace⟩ := h (path, child) List.mem_cons_self
    obtain ⟨links, hlinks⟩ := ih fun c hc => h c (List.mem_cons_of_mem _ hc)
    refine ⟨(path, place) :: links, ?_⟩
    unfold linksOf
    rw [hplace, hlinks]
    rfl

/-- a link leads to the place of the node that its import leads to -/
theorem mem_linksOf {children links : List (String × Nat)} (h : linksOf g places children = .ok links)
    {link : String × Nat} (hlink : link ∈ links) :
    ∃ child, (link.1, child) ∈ children ∧ places.find? child = some link.2 := by
  induction children generalizing links with
  | nil =>
    cases h
    simp at hlink
  | cons c children ih =>
    obtain ⟨path, child⟩ := c
    unfold linksOf at h
    cases hplace : places.find? child with
    | none => rw [hplace] at h; cases h
    | some place =>
      rw [hplace] at h
      cases hrest : linksOf g places children with
      | error e => rw [hrest] at h; cases h
      | ok rest =>
        rw [hrest] at h
        cases h
        rcases List.mem_cons.1 hlink with rfl | hlink
        · exact ⟨child, List.mem_cons_self, hplace⟩
        · obtain ⟨other, hother, hfound⟩ := ih hrest hlink
          exact ⟨other, List.mem_cons_of_mem _ hother, hfound⟩

theorem mem_childNodes {i : Nat} {node : GraphNode} (h : g.node? i = some node) {c : String × Nat}
    (hc : c ∈ node.children) : c.2 ∈ g.childNodes i := by
  unfold Graph.childNodes
  rw [h]
  exact List.mem_map_of_mem hc

/-- a node whose module is put behind a program has links for its imports -/
theorem extend_cons_ok {i : Nat} (h : extend g (i :: order) places p = .ok q) :
    ∃ node links, g.node? i = some node ∧ linksOf g places node.children = .ok links ∧
      extend g order (places.insert i p.modules.length)
        ⟨(scopesOf p.arena node.module (p.importsOf links)).2,
          p.modules ++ [⟨node.module, (scopesOf p.arena node.module (p.importsOf links)).1, .ofList links⟩]⟩ =
        .ok q := by
  unfold extend at h
  cases hnode : g.node? i with
  | none => rw [hnode] at h; cases h
  | some node =>
    rw [hnode] at h
    cases hlinks : linksOf g places node.children with
    | error e => simp only [hlinks] at h; cases h
    | ok links =>
      simp only [hlinks] at h
      exact ⟨node, links, rfl, hlinks, h⟩

/-- the modules of a program are those of nodes in an order, and each link leads to an earlier module, that of the node
which the import leads to -/
def Follows (g : Graph) (order : List Nat) (p : Program) : Prop :=
  ∀ (k : Nat) (m : LinkedModule), p.modules[k]? = some m →
    ∃ i node, order[k]? = some i ∧ g.node? i = some node ∧ m.module = node.module ∧
    ∀ path place, m.links.find? path = some place →
      place < k ∧ ∃ child, (path, child) ∈ node.children ∧ order[place]? = some child

theorem extend_follows {done : List Nat} (hlength : p.modules.length = done.length)
    (hplaces : ∀ i place, places.find? i = some place → done[place]? = some i) (hp : p.Follows g (done ++ order))
    (h : extend g order places p = .ok q) : q.Follows g (done ++ order) := by
  induction order generalizing done places p with
  | nil => cases h; exact hp
  | cons i order ih =>
    obtain ⟨node, links, hnode, hlinks, h⟩ := extend_cons_ok h
    have hsplit : done ++ i :: order = (done ++ [i]) ++ order := by simp
    rw [hsplit] at hp ⊢
    refine ih (by simp [hlength]) (fun j place hplace => ?_) (fun k m hm => ?_) h
    · rw [Table.find?_insert] at hplace
      split at hplace
      · next heq =>
        rw [← heq, ← Option.some.inj hplace, hlength]
        simp
      · have hold := hplaces j place hplace
        rw [List.getElem?_append_left (List.getElem?_eq_some_iff.1 hold).1]
        exact hold
    · by_cases hk : k < p.modules.length
      · rw [List.getElem?_append_left hk] at hm
        exact hp k m hm
      rw [List.getElem?_append_right (by omega)] at hm
      obtain ⟨hzero, hm⟩ := List.getElem?_eq_some_iff.1 hm
      have hk : k = done.length := by
        simp at hzero
        omega
      refine ⟨i, node, by simp [hk], hnode, ?_, fun path place hplace => ?_⟩
      · rw [← hm]
        simp
      · rw [← hm] at hplace
        simp only [List.getElem_singleton] at hplace
        obtain ⟨child, hchild, hfound⟩ := mem_linksOf hlinks (Table.mem_of_find?_ofList hplace)
        have hold := hplaces child place hfound
        have hlt := (List.getElem?_eq_some_iff.1 hold).1
        refine ⟨hk ▸ hlt, child, hchild, ?_⟩
        rw [List.append_assoc, List.getElem?_append_left hlt]
        exact hold

/-- nodes that each stand behind their children are put together, where those before them have their places -/
theorem extend_ok (done : List Nat) (hclosed : g.Closed (done ++ order))
    (hplaces : ∀ i ∈ done, ∃ place, places.find? i = some place)
    (hnodes : ∀ i ∈ order, i < g.nodes.size) (p : Program) : ∃ q, extend g order places p = .ok q := by
  induction order generalizing done places p with
  | nil => exact ⟨p, rfl⟩
  | cons i order ih =>
    have hi := hnodes i List.mem_cons_self
    have hnode : g.node? i = some g.nodes[i] := Array.getElem?_eq_getElem hi
    obtain ⟨links, hlinks⟩ := linksOf_ok g fun c hc =>
      hplaces c.2 (hclosed done i order rfl c.2 (mem_childNodes hnode hc))
    unfold extend
    simp only [hnode, hlinks]
    refine ih (done ++ [i]) ?_ (fun j hj => ?_) (fun j hj => hnodes j (List.mem_cons_of_mem _ hj)) _
    · rw [List.append_assoc]
      exact hclosed
    · rw [Table.find?_insert]
      split
      · exact ⟨_, rfl⟩
      · next hne =>
        rcases List.mem_append.1 hj with hj | hj
        · exact hplaces j hj
        · exact absurd (List.mem_singleton.1 hj).symm hne

/-- the modules that are put together are those of the nodes -/
theorem extend_modules (h : extend g order places p = .ok q) :
    q.modules.map LinkedModule.module =
      p.modules.map LinkedModule.module ++ order.filterMap fun i => (g.node? i).map GraphNode.module := by
  induction order generalizing places p with
  | nil =>
    cases h
    simp
  | cons i order ih =>
    obtain ⟨node, links, hnode, _, h⟩ := extend_cons_ok h
    rw [ih h, List.map_append, List.filterMap_cons, hnode, List.append_assoc]
    rfl

end Program

variable {natives : List NativeModule} {g : Graph} {p : Program}

/-- the modules of a program follow the order of its graph -/
theorem linked_follows (h : link g = .ok p) : ∃ order, g.ordered = .ok order ∧ p.Follows g order := by
  unfold link Graph.topologicalOrder at h
  cases horder : g.ordered with
  | error ring => rw [horder] at h; cases h
  | ok order =>
    rw [horder] at h
    refine ⟨order, rfl, @Program.extend_follows g _ order .empty p [] rfl (fun i place hplace => ?_) ?_ h⟩
    · simp at hplace
    · intro k m hm
      simp [Program.empty] at hm

/-- a graph whose edges stay within it is linked where it has no rings -/
theorem exists_link (hroot : g.root < g.nodes.size)
    (hchildren : ∀ i node, g.node? i = some node → ∀ c ∈ node.children, c.2 < g.nodes.size)
    (hcycles : g.detectCycles = .ok ()) : ∃ p, link g = .ok p := by
  obtain ⟨order, horder⟩ := Graph.ordered_of_detectCycles hcycles
  unfold link
  rw [Graph.topologicalOrder_eq horder]
  refine Program.extend_ok [] (Graph.closed_of_ordered horder) (fun _ h => nomatch h) ?_ _
  refine Graph.ordered_within (fun i _ child hchild => ?_) hroot horder
  unfold Graph.childNodes at hchild
  cases hnode : g.node? i with
  | none => rw [hnode] at hchild; cases hchild
  | some node =>
    rw [hnode] at hchild
    obtain ⟨c, hc, rfl⟩ := List.mem_map.1 hchild
    exact hchildren i node hnode c hc

theorem link_ok (h : g.Built natives) (hcycles : g.detectCycles = .ok ()) : ∃ p, link g = .ok p :=
  exists_link h.root_lt h.children hcycles

/-- the modules of a program in its order are those of the graph in the order of the graph -/
theorem linked_modules (h : link g = .ok p) : ∃ order, g.ordered = .ok order ∧
    p.modules.map LinkedModule.module = order.filterMap fun i => (g.node? i).map GraphNode.module := by
  unfold link Graph.topologicalOrder at h
  cases horder : g.ordered with
  | error ring => rw [horder] at h; cases h
  | ok order =>
    rw [horder] at h
    exact ⟨order, rfl, Program.extend_modules h⟩

theorem linked_made (hbuilt : g.Built natives) (h : link g = .ok p) {m : LinkedModule} (hm : m ∈ p.modules) :
    Graph.Made natives m.module := by
  obtain ⟨order, _, hmodules⟩ := linked_modules h
  have hmem : m.module ∈ p.modules.map LinkedModule.module := List.mem_map_of_mem hm
  rw [hmodules, List.mem_filterMap] at hmem
  obtain ⟨i, _, hi⟩ := hmem
  obtain ⟨node, hnode, heq⟩ := Option.map_eq_some_iff.1 hi
  rw [← heq]
  exact hbuilt.made i node hnode

/-- a program has its root, which is a source module -/
theorem linked_source (hbuilt : g.Built natives) (h : link g = .ok p) :
    ∃ m ∈ p.modules, ∃ body, m.module.content = .source body := by
  obtain ⟨order, horder, hmodules⟩ := linked_modules h
  obtain ⟨node, body, hnode, hbody⟩ := hbuilt.root
  have hroot : node.module ∈ p.modules.map LinkedModule.module := by
    rw [hmodules, List.mem_filterMap]
    exact ⟨g.root, Graph.root_mem_ordered horder, by rw [hnode, Option.map_some]⟩
  obtain ⟨m, hm, heq⟩ := List.mem_map.1 hroot
  exact ⟨m, hm, body, heq ▸ hbody⟩

/-- the root of a program is the module of the root of its graph, which is a source module -/
theorem linked_root (hbuilt : g.Built natives) (h : link g = .ok p) :
    ∃ m node body, p.root? = some m ∧ g.node? g.root = some node ∧ m.module = node.module ∧
      node.module.content = .source body := by
  obtain ⟨order, horder, hmodules⟩ := linked_modules h
  obtain ⟨node, body, hnode, hbody⟩ := hbuilt.root
  obtain ⟨others, rfl⟩ := List.getLast?_eq_some_iff.1 (Graph.last_of_ordered horder)
  have hlast : (p.modules.map LinkedModule.module).getLast? = some node.module := by
    rw [hmodules, List.filterMap_append, List.filterMap_cons, hnode]
    simp
  rw [List.getLast?_map] at hlast
  obtain ⟨m, hm, hmodule⟩ := Option.map_eq_some_iff.1 hlast
  exact ⟨m, node, body, hm, hnode, hmodule, hbody⟩

/-- no two modules of a program have the same key -/
theorem linked_keys (hbuilt : g.Built natives) (h : link g = .ok p) : p.order.Nodup := by
  obtain ⟨order, horder, hmodules⟩ := linked_modules h
  have hkeys : p.order = order.filterMap fun i => (g.node? i).map fun node => node.module.key := by
    have horder : p.order = (p.modules.map LinkedModule.module).map Module.key := by
      rw [List.map_map]
      rfl
    rw [horder, hmodules, List.map_filterMap]
    simp only [Option.map_map]
    rfl
  rw [hkeys]
  refine List.Nodup.filterMap (fun i j key hi hj => ?_) (Graph.nodup_of_ordered horder)
  obtain ⟨node, hnode, rfl⟩ := Option.map_eq_some_iff.1 hi
  obtain ⟨node', hnode', hkey⟩ := Option.map_eq_some_iff.1 hj
  have hindex := hbuilt.indexed i node hnode
  rw [← hkey, hbuilt.indexed j node' hnode'] at hindex
  exact (Option.some.inj hindex).symm

end TypedScript
