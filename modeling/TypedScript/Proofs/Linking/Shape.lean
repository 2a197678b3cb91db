/-
The shape of a graph that is built. The building follows the imports of one node after the other and puts new nodes
behind those that wait; a node that no longer waits has an edge for each path that its module imports. A path has at
most one text, so that the building comes to its end with no node waiting.

- `Graph.Growing`: what is kept while a graph grows, with the nodes that are pending.
- `Graph.follow_growing`: following the imports of one node.
- `Graph.Underway`, `Graph.Underway.turn`: the nodes that wait and the turns that are left, from one turn to the next.
- `Graph.Shape`: the nodes, the index, and the edges in both directions.
- `Graph.shape_of_build`: the graph that is built has that shape.
-/
import TypedScript.Proofs.Linking.Capacity
import TypedScript.Proofs.Linking.Cycles

namespace TypedScript.Graph

variable {natives : List NativeModule} {loader : Loader} {g g' : Graph} {m : Module} {i j parent child current : Nat}
  {node : GraphNode} {path rootPath : String} {root : Block}

/-! ## Modules of the nodes -/

/-- the modules of the nodes, in their order -/
def modules (g : Graph) : List Module := g.nodes.toList.map GraphNode.module

theorem modules_getElem? (g : Graph) (i : Nat) : g.modules[i]? = (g.node? i).map GraphNode.module := by
  unfold modules node?
  rw [List.getElem?_map, Array.getElem?_toList]

theorem modules_add (g : Graph) (m : Module) : (g.add m).2.modules = g.modules ++ [m] := by
  unfold modules add
  rw [Array.toList_push, List.map_append]
  rfl

theorem modules_addEdge (g : Graph) (parent : Nat) (path : String) (child : Nat) :
    (g.addEdge parent path child).modules = g.modules := by
  refine List.ext_getElem? fun i => ?_
  rw [modules_getElem?, modules_getElem?, module_addEdge]

/-- how many modules are sources, whose imports are to be followed -/
def sourceCount (g : Graph) : Nat := (g.modules.filter fun m => !m.isNative).length

theorem sourceCount_addEdge (g : Graph) (parent : Nat) (path : String) (child : Nat) :
    (g.addEdge parent path child).sourceCount = g.sourceCount := by
  unfold sourceCount
  rw [modules_addEdge]

theorem sourceCount_add (g : Graph) (m : Module) :
    (g.add m).2.sourceCount = g.sourceCount + if m.isNative then 0 else 1 := by
  unfold sourceCount
  rw [modules_add, List.filter_append, List.length_append]
  cases h : m.isNative <;> simp [h]

/-- no two nodes have one key -/
theorem nodup_keys (h : g.Led natives) : (g.modules.map Module.key).Nodup := by
  have hkeyed {i : Nat} {key : String} (hi : (g.modules.map Module.key)[i]? = some key) :
      g.index.find? key = some i := by
    rw [List.getElem?_map, modules_getElem?, Option.map_map] at hi
    obtain ⟨node, hnode, rfl⟩ := Option.map_eq_some_iff.1 hi
    exact h.keyed i node hnode
  rw [List.nodup_iff_pairwise_ne, List.pairwise_iff_getElem]
  intro i j hi hj hij heq
  have hleft := hkeyed (List.getElem?_eq_getElem hi)
  have hright := hkeyed (List.getElem?_eq_getElem hj)
  rw [heq, hright, Option.some.injEq] at hleft
  exact absurd hleft.symm (Nat.ne_of_lt hij)

/-! ## Edges in both directions -/

/-- a node's parents are the nodes with an edge to it, each of them once -/
def Mirrored (g : Graph) : Prop :=
  ∀ i node, g.node? i = some node → node.parents.Nodup ∧ ∀ p, p ∈ node.parents ↔ g.Imports p i

/-- an import that is noted adds its own node to the parents of what it leads to, unless the path was noted before -/
theorem parents_addEdge {importer : GraphNode} (hparent : g.node? parent = some importer)
    (path : String) (child i : Nat) :
    ((g.addEdge parent path child).node? i).map GraphNode.parents =
      (g.node? i).map fun n => if i = child ∧ path ∉ importer.children.map Prod.fst ∧ parent ∉ n.parents
        then n.parents ++ [parent] else n.parents := by
  unfold addEdge
  split
  · next h =>
    have hold : path ∈ importer.children.map Prod.fst := by
      rw [hparent] at h
      simp only [Option.map_some, Option.getD_some, List.any_eq_true, decide_eq_true_eq] at h
      obtain ⟨c, hc, rfl⟩ := h
      exact List.mem_map_of_mem hc
    cases g.node? i with
    | none => rfl
    | some n => simp [hold]
  · next h =>
    have hnew : path ∉ importer.children.map Prod.fst := by
      intro hpath
      obtain ⟨c, hc, rfl⟩ := List.mem_map.1 hpath
      simp [hparent] at h
      exact h c.2 hc
    simp only [node?, Array.getElem?_modify]
    cases g.nodes[i]? with
    | none => split <;> split <;> rfl
    | some n =>
      by_cases hchild : child = i
      · subst hchild
        by_cases hparent : parent = child <;> by_cases hmem : parent ∈ n.parents <;> simp_all
      · have hchild' : ¬ i = child := fun h => hchild h.symm
        by_cases hparent : parent = i <;> simp [hchild, hchild', hparent]

theorem imports_addEdge_iff (hparent : g.node? parent = some node) {p : Nat} :
    (g.addEdge parent path child).Imports p i ↔
      g.Imports p i ∨ p = parent ∧ i = child ∧ path ∉ node.children.map Prod.fst := by
  rw [imports_iff, imports_iff, children_addEdge]
  cases hp : g.node? p with
  | none =>
    simp only [Option.map_none, reduceCtorEq, false_and, exists_false, false_or, false_iff, not_and]
    rintro rfl
    simp [hparent] at hp
  | some n =>
    simp only [Option.map_some, Option.some.injEq, exists_eq_left']
    by_cases hsame : p = parent
    · obtain rfl : n = node := by simpa [hsame, hparent] using hp.symm
      by_cases hnew : path ∈ n.children.map Prod.fst
      · simp [hsame, hnew]
      · simp [hsame, hnew, exists_or]
    · simp [hsame]

theorem Mirrored.addEdge (h : g.Mirrored) (hparent : g.node? parent = some node) (path : String) (child : Nat) :
    (g.addEdge parent path child).Mirrored := by
  intro i n hn
  have hparents := parents_addEdge hparent path child i
  rw [hn] at hparents
  obtain ⟨old, hold, heq⟩ := Option.map_eq_some_iff.1 hparents.symm
  obtain ⟨hnodup, hmem⟩ := h i old hold
  split at heq
  · next hadded =>
    obtain ⟨rfl, hnew, hfresh⟩ := hadded
    refine ⟨?_, fun p => ?_⟩
    · rw [← heq]
      exact hnodup.append (List.nodup_singleton parent) (by simpa using hfresh)
    · rw [← heq, imports_addEdge_iff hparent, List.mem_append, List.mem_singleton, hmem]
      exact or_congr_right ⟨fun hp => ⟨hp, rfl, hnew⟩, And.left⟩
  · next hkept =>
    refine ⟨heq ▸ hnodup, fun p => ?_⟩
    rw [← heq, imports_addEdge_iff hparent, hmem]
    refine ⟨.inl, fun himports => himports.elim id ?_⟩
    -- another path of the importer leads there, or the node would have got a parent
    rintro ⟨rfl, rfl, hnew⟩
    by_contra hfresh
    exact hkept ⟨rfl, hnew, fun hin => hfresh ((hmem p).1 hin)⟩

theorem imports_add_iff : (g.add m).2.Imports i j ↔ g.Imports i j := by
  refine ⟨fun hedge => ?_, imports_add⟩
  obtain ⟨children, hchildren, hmem⟩ := imports_iff.1 hedge
  rw [node?_add] at hchildren
  split at hchildren
  · cases hchildren
    obtain ⟨_, hnone⟩ := hmem
    cases hnone
  · exact imports_iff.2 ⟨children, hchildren, hmem⟩

/-- a node that is added has no edges yet -/
theorem Mirrored.add (h : g.Mirrored) (hled : g.Led natives) (m : Module) : (g.add m).2.Mirrored := by
  intro i node hnode
  rw [node?_add] at hnode
  split at hnode
  · next hi =>
    cases hnode
    have hold (p : Nat) (hedge : (g.add m).2.Imports p i) : i < g.nodes.size :=
      hled.lt_of_imports (imports_add_iff.1 hedge)
    exact ⟨.nil, fun p => ⟨fun hp => (nomatch hp), fun hedge => absurd (hold p hedge) (hi ▸ Nat.lt_irrefl _)⟩⟩
  · obtain ⟨hnodup, hmem⟩ := h i node hnode
    exact ⟨hnodup, fun p => (hmem p).trans imports_add_iff.symm⟩

/-! ## The steps of the building -/

/-- what an import leads to is there, or it is added: a module of the host's, or a text that the loader has -/
theorem target_cases {new : Bool} (ht : target loader natives current path g = .ok (child, new, g')) :
    (g' = g ∧ new = false) ∨ ∃ m, child = g.nodes.size ∧ g' = (g.add m).2 ∧ new = !m.isNative ∧
      (m.isNative = false → loader.Has m.key) := by
  cases Target.of_ok ht with
  | native named index => exact .inl ⟨rfl, rfl⟩
  | addNative named fresh => exact .inr ⟨.ofNative _, rfl, rfl, rfl, fun hsource => nomatch hsource⟩
  | text unnamed index => exact .inl ⟨rfl, rfl⟩
  | addText unnamed fresh loaded =>
    obtain ⟨body, rfl⟩ := ofSource_of_loadModule loaded
    refine .inr ⟨_, rfl, rfl, rfl, fun _ => ⟨⟨_, _, rfl⟩, ?_⟩⟩
    unfold loadModule at loaded
    cases hsource : loader.load (g.pathFrom current path) with
    | error e => rw [hsource] at loaded; cases loaded
    | ok source => exact ⟨source, hsource⟩

theorem root_import {new : Bool} (ht : target loader natives current path g = .ok (child, new, g')) :
    (g'.addEdge current path child).root = g.root := by
  rw [root_addEdge]
  obtain ⟨rfl, _⟩ | ⟨m, _, rfl, _⟩ := target_cases ht
  · rfl
  · rfl

/-- what is kept while a graph grows: the nodes that are not pending have an edge for each path that they import -/
structure Growing (natives : List NativeModule) (loader : Loader) (root : Module) (pending : List Nat) (g : Graph) :
    Prop where
  led : g.Led natives
  mirrored : g.Mirrored
  /-- every source but the root has a text at its key -/
  modules : ∃ rest, g.modules = root :: rest ∧ ∀ m ∈ rest, m.isNative = false → loader.Has m.key
  nodup : pending.Nodup
  there : ∀ i ∈ pending, i < g.nodes.size
  done : ∀ i node, g.node? i = some node → i ∉ pending → node.children.map Prod.fst = node.module.imports.eraseDups

variable {pending waiting waiting' : List Nat} {first : Module}

theorem Growing.pending_node (h : Growing natives loader first pending g) (hi : i ∈ pending) :
    ∃ node, g.node? i = some node := ⟨_, Array.getElem?_eq_getElem (h.there i hi)⟩

/-- a source that is added is pending -/
theorem Growing.add (h : Growing natives loader first pending g) (hled : (g.add m).2.Led natives)
    (hm : m.isNative = false → loader.Has m.key) :
    Growing natives loader first (if m.isNative then pending else pending ++ [g.nodes.size]) (g.add m).2 := by
  have hsize := g.size_add m
  have hnew : g.nodes.size ∉ pending := fun hmem => Nat.lt_irrefl _ (h.there _ hmem)
  have hold : ∀ i node, (g.add m).2.node? i = some node → i ≠ g.nodes.size → i ∉ pending →
      node.children.map Prod.fst = node.module.imports.eraseDups := by
    intro i node hnode hi
    rw [node?_add, if_neg hi] at hnode
    exact h.done i node hnode
  have hmodules : ∃ rest, (g.add m).2.modules = first :: rest ∧ ∀ m ∈ rest, m.isNative = false → loader.Has m.key := by
    obtain ⟨rest, hrest, htexts⟩ := h.modules
    refine ⟨rest ++ [m], by rw [modules_add, hrest]; rfl, fun other hother => ?_⟩
    rcases List.mem_append.1 hother with hother | hother
    · exact htexts other hother
    · rw [List.mem_singleton.1 hother]
      exact hm
  cases hnative : m.isNative with
  | true =>
    refine ⟨hled, h.mirrored.add h.led m, hmodules, h.nodup, fun i hi => hsize ▸ Nat.lt_succ_of_lt (h.there i hi),
      fun i node hnode hi => ?_⟩
    by_cases hlast : i = g.nodes.size
    · rw [node?_add, if_pos hlast] at hnode
      cases hnode
      obtain ⟨key, path, content⟩ := m
      cases content with
      | source body => cases hnative
      | native native => rfl
    · exact hold i node hnode hlast hi
  | false =>
    refine ⟨hled, h.mirrored.add h.led m, hmodules, ?_, fun i hi => ?_, fun i node hnode hi => ?_⟩
    · exact h.nodup.append (List.nodup_singleton _) (by simpa using hnew)
    · rw [hsize]
      rcases List.mem_append.1 hi with hi | hi
      · exact Nat.lt_succ_of_lt (h.there i hi)
      · rw [List.mem_singleton.1 hi]
        exact Nat.lt_succ_self _
    · rw [if_neg Bool.false_ne_true, List.mem_append, List.mem_singleton, not_or] at hi
      exact hold i node hnode hi.2 hi.1

/-- an import of a pending node is noted -/
theorem Growing.addEdge (h : Growing natives loader first pending g) (hcurrent : current ∈ pending) (path : String)
    (hled : (g.addEdge current path child).Led natives) :
    Growing natives loader first pending (g.addEdge current path child) := by
  obtain ⟨node, hnode⟩ := h.pending_node hcurrent
  refine ⟨hled, h.mirrored.addEdge hnode path child, ?_, h.nodup, fun i hi => ?_, fun i node hi hnot => ?_⟩
  · rw [modules_addEdge]
    exact h.modules
  · rw [size_addEdge]
    exact h.there i hi
  · obtain ⟨old, hold, hmodule, hsame | ⟨rfl, _, _⟩⟩ := node?_addEdge hi
    · rw [hsame, hmodule]
      exact h.done i old hold hnot
    · exact absurd hcurrent hnot

/-- nodes whose imports are still to be followed have no edges -/
def Untouched (g : Graph) (waiting : List Nat) : Prop := ∀ i ∈ waiting, (g.node? i).map GraphNode.children = some []

theorem growing_target {new : Bool} (h : Growing natives loader first (current :: waiting) g)
    (hwaiting : g.Untouched waiting) (ht : target loader natives current path g = .ok (child, new, g')) :
    Growing natives loader first (current :: if new then waiting ++ [child] else waiting) g' ∧
      g'.Untouched (if new then waiting ++ [child] else waiting) ∧ g'.node? current = g.node? current ∧
      g'.sourceCount + waiting.length = g.sourceCount + (if new then waiting ++ [child] else waiting).length := by
  obtain ⟨node, hcurrent⟩ := h.pending_node List.mem_cons_self
  have hled := (target_led h.led (by rw [hcurrent]; rfl) ht).1
  rcases target_cases ht with ⟨rfl, rfl⟩ | ⟨m, rfl, rfl, rfl, hm⟩
  · exact ⟨h, hwaiting, rfl, rfl⟩
  have hkept {i : Nat} (hi : i ∈ current :: waiting) : (g.add m).2.node? i = g.node? i := by
    rw [node?_add, if_neg (Nat.ne_of_lt (h.there i hi))]
  have hold : (g.add m).2.Untouched waiting := by
    intro i hi
    rw [hkept (List.mem_cons_of_mem _ hi)]
    exact hwaiting i hi
  have hgrown := h.add hled hm
  rw [sourceCount_add]
  cases hnative : m.isNative with
  | true =>
    rw [hnative] at hgrown
    exact ⟨hgrown, hold, hkept List.mem_cons_self, rfl⟩
  | false =>
    rw [hnative] at hgrown
    refine ⟨hgrown, fun i hi => ?_, hkept List.mem_cons_self, by simp; omega⟩
    rcases List.mem_append.1 hi with hi | hi
    · exact hold i hi
    · rw [List.mem_singleton.1 hi, node?_add]
      exact congrArg _ (if_pos rfl)

/-- the paths of a node's edges, after one more import -/
theorem paths_addEdge {before : List String} (hnode : g.node? current = some node)
    (hbefore : node.children.map Prod.fst = before.eraseDups) (path : String) (child : Nat) :
    ∃ node', (g.addEdge current path child).node? current = some node' ∧ node'.module = node.module ∧
      node'.children.map Prod.fst = (before ++ [path]).eraseDups := by
  have hchildren := children_addEdge g current path child current
  have hmodule := module_addEdge g current path child current
  rw [hnode, Option.map_some] at hchildren hmodule
  obtain ⟨node', hnode', heq⟩ := Option.map_eq_some_iff.1 hchildren
  rw [hnode', Option.map_some, Option.some.injEq] at hmodule
  refine ⟨node', hnode', hmodule, ?_⟩
  rw [heq, List.eraseDups_append]
  by_cases hpath : path ∈ before <;> simp [hpath, hbefore, List.removeAll, List.eraseDups_cons]

/-- following the imports of a node gives it an edge for each path, in their order, and each new source waits -/
theorem follow_growing {paths before : List String} (h : Growing natives loader first (current :: waiting) g)
    (hwaiting : g.Untouched waiting) (hnode : g.node? current = some node)
    (hbefore : node.children.map Prod.fst = before.eraseDups)
    (hf : follow loader natives current paths waiting g = .ok (waiting', g')) :
    Growing natives loader first (current :: waiting') g' ∧ g'.Untouched waiting' ∧
      (∃ node', g'.node? current = some node' ∧ node'.module = node.module ∧
        node'.children.map Prod.fst = (before ++ paths).eraseDups) ∧
      g'.sourceCount + waiting.length = g.sourceCount + waiting'.length := by
  induction paths generalizing waiting g node before with
  | nil =>
    cases hf
    exact ⟨h, hwaiting, ⟨node, hnode, rfl, by rw [List.append_nil]; exact hbefore⟩, rfl⟩
  | cons path paths ih =>
    obtain ⟨child, new, g₁, ht, hf⟩ := follow_cons_ok hf
    obtain ⟨hgrown, huntouched, hkept, hcount⟩ := growing_target h hwaiting ht
    rw [← hkept] at hnode
    have hmodule : (g₁.node? current).map GraphNode.module = some node.module := by rw [hnode]; rfl
    have hled := hgrown.led.addEdge hmodule
      (target_led h.led (by rw [← hkept]; exact hmodule) ht).2.2.1
    obtain ⟨node₁, hnode₁, hsame, hbefore₁⟩ := paths_addEdge hnode hbefore path child
    have hnew : (g₁.addEdge current path child).Untouched (if new then waiting ++ [child] else waiting) := by
      intro i hi
      have hne : i ≠ current := fun heq => (List.nodup_cons.1 hgrown.nodup).1 (heq ▸ hi)
      rw [children_addEdge]
      simpa [hne] using huntouched i hi
    obtain ⟨hdone, hrest, ⟨node', hnode', hmodule', hpaths⟩, htotal⟩ :=
      ih (hgrown.addEdge List.mem_cons_self path hled) hnew hnode₁ hbefore₁ hf
    rw [sourceCount_addEdge] at htotal
    refine ⟨hdone, hrest, ⟨node', hnode', hmodule'.trans hsame, ?_⟩, by omega⟩
    rw [hpaths, List.append_assoc, List.singleton_append]

/-- a node whose imports are followed is no longer pending -/
theorem Growing.tail (h : Growing natives loader first (current :: waiting) g) (hnode : g.node? current = some node)
    (hpaths : node.children.map Prod.fst = node.module.imports.eraseDups) : Growing natives loader first waiting g := by
  refine ⟨h.led, h.mirrored, h.modules, (List.nodup_cons.1 h.nodup).2,
    fun i hi => h.there i (List.mem_cons_of_mem _ hi),
    fun i n hi hnot => ?_⟩
  by_cases hsame : i = current
  · obtain rfl : node = n := Option.some.inj (hnode.symm.trans (hsame ▸ hi))
    exact hpaths
  · exact h.done i n hi fun hmem => (List.mem_cons.1 hmem).elim hsame hnot

/-- no more sources than the loader has texts, and the root -/
theorem Growing.sourceCount_le (h : Growing natives loader first pending g) : g.sourceCount ≤ loader.capacity + 1 := by
  obtain ⟨rest, hrest, htexts⟩ := h.modules
  have hkeys := nodup_keys h.led
  rw [hrest, List.map_cons, List.nodup_cons] at hkeys
  have hrest' : ((rest.filter fun m => !m.isNative).map Module.key).length ≤ loader.capacity := by
    refine Loader.length_le_capacity (hkeys.2.sublist (List.filter_sublist.map _)) fun key hkey => ?_
    obtain ⟨m, hm, rfl⟩ := List.mem_map.1 hkey
    obtain ⟨hmem, hsource⟩ := List.mem_filter.1 hm
    exact htexts m hmem (by simpa using hsource)
  rw [List.length_map] at hrest'
  unfold sourceCount
  rw [hrest]
  have hfirst := List.length_filter_le (fun m => !m.isNative) [first]
  rw [← List.singleton_append, List.filter_append, List.length_append]
  simp only [List.length_singleton] at hfirst
  omega

/-- the building underway: the nodes that wait have no edges yet, and there are as many turns left as there can still be
sources to follow -/
structure Underway (natives : List NativeModule) (loader : Loader) (root : Module) (turns : Nat) (waiting : List Nat)
    (g : Graph) : Prop where
  growing : Growing natives loader root waiting g
  untouched : g.Untouched waiting
  enough : loader.capacity + 1 + waiting.length ≤ turns + g.sourceCount

variable {turns : Nat}

/-- a node whose imports are followed is done with -/
theorem Underway.turn (h : Underway natives loader first (turns + 1) (current :: waiting) g)
    (hf : follow loader natives current (((g.node? current).map fun n => n.module.imports).getD []) waiting g =
      .ok (waiting', g')) : Underway natives loader first turns waiting' g' := by
  obtain ⟨node, hnode⟩ := h.growing.pending_node List.mem_cons_self
  rw [hnode, Option.map_some, Option.getD_some] at hf
  have hfirst := h.untouched current List.mem_cons_self
  rw [hnode, Option.map_some, Option.some.injEq] at hfirst
  have hnone : node.children.map Prod.fst = ([] : List String).eraseDups := by rw [hfirst]; rfl
  obtain ⟨hgrown, huntouched, ⟨node', hnode', hmodule, hpaths⟩, hcount⟩ :=
    follow_growing h.growing (fun i hi => h.untouched i (List.mem_cons_of_mem _ hi)) hnode hnone hf
  have henough := h.enough
  rw [List.length_cons] at henough
  exact ⟨hgrown.tail hnode' (by rw [hpaths, List.nil_append, hmodule]), huntouched, by omega⟩

/-- where no turn is left, no node waits -/
theorem Underway.eq_nil (h : Underway natives loader first 0 waiting g) : waiting = [] := by
  have hcount := h.growing.sourceCount_le
  have henough := h.enough
  exact List.eq_nil_of_length_eq_zero (by omega)

/-! ## The graph that is built -/

theorem growing_start (natives : List NativeModule) (loader : Loader) (rootPath : String) (root : Block) :
    Growing natives loader (.ofSource rootPath root) [0] (start rootPath root) := by
  have hnode {i : Nat} {node : GraphNode} (hi : (start rootPath root).node? i = some node) :
      i = 0 ∧ node = ⟨.ofSource rootPath root, [], []⟩ := by
    rw [start, node?_add] at hi
    split at hi
    · next h => exact ⟨h, (Option.some.inj hi).symm⟩
    · cases hi
  refine ⟨led_start natives rootPath root, fun i node hi => ?_, ⟨[], rfl, fun _ hm => absurd hm List.not_mem_nil⟩,
    List.nodup_singleton 0, fun i hi => ?_, fun i node hi hnot => ?_⟩
  · obtain ⟨_, rfl⟩ := hnode hi
    refine ⟨.nil, fun p => ⟨fun hp => absurd hp List.not_mem_nil, fun hedge => ?_⟩⟩
    obtain ⟨children, hchildren, path, hmem⟩ := imports_iff.1 hedge
    obtain ⟨importer, himporter, rfl⟩ := Option.map_eq_some_iff.1 hchildren
    obtain ⟨_, rfl⟩ := hnode himporter
    cases hmem
  · rw [List.mem_singleton.1 hi]
    exact Nat.one_pos
  · exact absurd (List.mem_singleton.2 (hnode hi).1) hnot

theorem underway_start (natives : List NativeModule) (loader : Loader) (rootPath : String) (root : Block) :
    Underway natives loader (.ofSource rootPath root) (loader.capacity + 1) [0] (start rootPath root) := by
  refine ⟨growing_start natives loader rootPath root, fun i hi => ?_, Nat.le_refl _⟩
  rw [List.mem_singleton.1 hi]
  rfl

theorem growing_of_build (h : build rootPath root loader natives = .ok g) :
    Growing natives loader (.ofSource rootPath root) [] g := by
  obtain ⟨left, waiting, rfl | rfl, hdone⟩ :=
    grow_keeps Underway.turn (underway_start natives loader rootPath root) h
  · exact hdone.eq_nil ▸ hdone.growing
  · exact hdone.growing

/-- the root of a graph has the module that the graph was built for -/
theorem root_of_build (h : build rootPath root loader natives = .ok g) :
    (g.node? g.root).map GraphNode.module = some (.ofSource rootPath root) := by
  obtain ⟨rest, hmodules, _⟩ := (growing_of_build h).modules
  have hroot : g.root = 0 :=
    (grow_led (P := fun g => g.root = 0) (fun _ hroot _ ht => (root_import ht).trans hroot)
      (led_start natives rootPath root) rfl h).2
  rw [← modules_getElem?, hmodules, hroot]
  rfl

/-- the shape of a graph: the nodes of a root's modules, their index and the edges between them -/
structure Shape (g : Graph) : Prop where
  nodup : (g.modules.map Module.key).Nodup
  index : ∀ key i, g.index.find? key = some i ↔ ∃ node, g.node? i = some node ∧ node.module.key = key
  needed : ∀ i < g.nodes.size, g.Needed i
  /-- a source has an edge for each path that it imports, in the order in which the paths come first -/
  source : ∀ i node body, g.node? i = some node → node.module.content = .source body →
    node.children.map Prod.fst = body.imports.eraseDups
  native : ∀ i node native, g.node? i = some node → node.module.content = .native native → node.children = []
  /-- the parents of a node are those with an edge to it, each once -/
  parents : ∀ i node, g.node? i = some node → node.parents.Nodup ∧
    ∀ p, p ∈ node.parents ↔ ∃ importer, g.node? p = some importer ∧ ∃ path, (path, i) ∈ importer.children

/-- whatever is loaded and in whichever order, the graph that is built has its shape -/
theorem shape_of_build (h : build rootPath root loader natives = .ok g) : g.Shape := by
  have hgrown := growing_of_build h
  have hdone {i : Nat} {node : GraphNode} (hi : g.node? i = some node) := hgrown.done i node hi List.not_mem_nil
  refine ⟨nodup_keys hgrown.led, fun key i => ⟨hgrown.led.index key i, ?_⟩, (whole_of_build h).needed,
    fun i node body hi hbody => ?_, fun i node native hi hnative => ?_, fun i node hi => ?_⟩
  · rintro ⟨node, hnode, rfl⟩
    exact hgrown.led.keyed i node hnode
  · rw [hdone hi, Module.imports, hbody]
  · have hnone : node.children.map Prod.fst = [] := by
      rw [hdone hi, Module.imports, hnative]
      rfl
    exact List.map_eq_nil_iff.1 hnone
  · obtain ⟨hnodup, hmem⟩ := hgrown.mirrored i node hi
    refine ⟨hnodup, fun p => (hmem p).trans ?_⟩
    rw [imports_iff]
    cases g.node? p <;> simp

/-- a text that imports itself twice by one path, and one module by two -/
theorem shape_of_build_ring : ∃ body g,
    build "main" body (.memory (Loader.insert .empty "lib" "")) [⟨"lib", []⟩] = .ok g ∧
      g.outline = [(some "main", [("./main", 0), ("lib", 1), ("./lib", 1)]), (none, [])] ∧ g.Shape := by
  have houtline : (buildOf "use \"./main\"; use \"lib\"; use \"./main\"; use \"./lib\";").map outline =
      some [(some "main", [("./main", 0), ("lib", 1), ("./lib", 1)]), (none, [])] := by decide +kernel
  obtain ⟨body, g, hbuild, hnodes⟩ := build_of_buildOf houtline
  exact ⟨body, g, hbuild, hnodes, shape_of_build hbuild⟩

end TypedScript.Graph
