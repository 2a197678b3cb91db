/-
The building of a graph. Whatever is loaded and in whichever order, the graph keeps its shape: the index leads to the
node of each key, the imports of a node lead to nodes, a native module is one of the host's and a source module has the
tree of a text.

- `Graph.Target`: where a path leads from a node.
- `Graph.follow_keeps`, `Graph.grow_keeps`: what one import keeps, and what one turn keeps, is kept.
- `Graph.built_of_build`: the graph that is built for the tree of a text has that shape.
-/
import TypedScript.Linking.Graph

namespace TypedScript.Graph

variable {natives : List NativeModule} {loader : Loader} {g g' : Graph} {m : Module} {i parent child : Nat}
  {path : String}

/-- a module that a graph may have -/
structure Made (natives : List NativeModule) (m : Module) : Prop where
  source : ∀ body, m.content = .source body → ∃ text, parse text = .ok body
  native : ∀ native, m.content = .native native → native ∈ natives ∧ m.key = native.name

structure Built (natives : List NativeModule) (g : Graph) : Prop where
  root : ∃ node body, g.node? g.root = some node ∧ node.module.content = .source body
  children : ∀ i node, g.node? i = some node → ∀ c ∈ node.children, c.2 < g.nodes.size
  made : ∀ i node, g.node? i = some node → Made natives node.module
  indexed : ∀ i node, g.node? i = some node → g.index.find? node.module.key = some i
  index : ∀ key i, g.index.find? key = some i → i < g.nodes.size

theorem made_ofSource {text : String} {body : Block} (h : parse text = .ok body) (natives : List NativeModule)
    (path : String) : Made natives (.ofSource path body) :=
  ⟨fun _ heq => ModuleContent.source.inj heq ▸ ⟨text, h⟩, fun _ heq => (nomatch heq)⟩

theorem made_ofNative {native : NativeModule} (h : native ∈ natives) : Made natives (.ofNative native) :=
  ⟨fun _ heq => (nomatch heq), fun _ heq => ModuleContent.native.inj heq ▸ ⟨h, rfl⟩⟩

theorem lt_of_node? {node : GraphNode} (h : g.node? i = some node) : i < g.nodes.size := by
  unfold node? at h
  exact (Array.getElem?_eq_some_iff.1 h).1

theorem Built.root_lt (h : g.Built natives) : g.root < g.nodes.size := by
  obtain ⟨node, _, hnode, _⟩ := h.root
  exact lt_of_node? hnode

/-! ## One more node -/

theorem size_add (g : Graph) (m : Module) : (g.add m).2.nodes.size = g.nodes.size + 1 := Array.size_push _

theorem node?_add (g : Graph) (m : Module) (i : Nat) :
    (g.add m).2.node? i = if i = g.nodes.size then some ⟨m, [], []⟩ else g.node? i := by
  unfold add node?
  rw [Array.getElem?_push]

theorem Built.add (h : g.Built natives) (hm : Made natives m) (hnew : g.index.find? m.key = none) :
    (g.add m).2.Built natives := by
  have hsize := g.size_add m
  refine ⟨?_, fun i node hnode c hc => ?_, fun i node hnode => ?_, fun i node hnode => ?_, fun key i hi => ?_⟩
  · obtain ⟨node, body, hnode, hbody⟩ := h.root
    refine ⟨node, body, ?_, hbody⟩
    rw [node?_add]
    exact (if_neg (Nat.ne_of_lt h.root_lt)).trans hnode
  · rw [hsize]
    rw [node?_add] at hnode
    split at hnode
    · cases hnode; cases hc
    · exact Nat.lt_succ_of_lt (h.children i node hnode c hc)
  · rw [node?_add] at hnode
    split at hnode
    · cases hnode; exact hm
    · exact h.made i node hnode
  · change (g.index.insert m.key g.nodes.size).find? node.module.key = some i
    rw [Table.find?_insert]
    rw [node?_add] at hnode
    split at hnode
    · next hi => cases hnode; rw [if_pos rfl, hi]
    · have hold := h.indexed i node hnode
      rw [if_neg fun heq => by rw [← heq, hnew] at hold; cases hold]
      exact hold
  · rw [hsize]
    change (g.index.insert m.key g.nodes.size).find? key = some i at hi
    rw [Table.find?_insert] at hi
    split at hi
    · cases hi; exact Nat.lt_succ_self _
    · exact Nat.lt_succ_of_lt (h.index key i hi)

/-! ## One more import -/

theorem size_addEdge (g : Graph) (parent : Nat) (path : String) (child : Nat) :
    (g.addEdge parent path child).nodes.size = g.nodes.size := by
  unfold addEdge
  split
  · rfl
  · simp

/-- an import that is noted changes no module -/
theorem module_addEdge (g : Graph) (parent : Nat) (path : String) (child i : Nat) :
    ((g.addEdge parent path child).node? i).map GraphNode.module = (g.node? i).map GraphNode.module := by
  unfold addEdge
  split
  · rfl
  · simp only [node?, Array.getElem?_modify]
    split <;> split <;> cases g.nodes[i]? <;> simp [apply_ite]

/-- an import that is noted adds to the imports of its own node what it leads to, unless its path is there -/
theorem children_addEdge (g : Graph) (parent : Nat) (path : String) (child i : Nat) :
    ((g.addEdge parent path child).node? i).map GraphNode.children =
      (g.node? i).map fun n =>
        if i = parent ∧ path ∉ n.children.map Prod.fst then n.children ++ [(path, child)] else n.children := by
  unfold addEdge
  split
  · next h =>
    cases hnode : g.node? i with
    | none => rfl
    | some n =>
      simp only [Option.map_some]
      rw [if_neg]
      rintro ⟨rfl, hpath⟩
      rw [hnode] at h
      simp only [Option.map_some, Option.getD_some, List.any_eq_true, decide_eq_true_eq] at h
      obtain ⟨c, hc, rfl⟩ := h
      exact hpath (List.mem_map_of_mem hc)
  · next h =>
    simp only [node?, Array.getElem?_modify] at h ⊢
    by_cases hparent : parent = i
    · subst hparent
      cases hnode : g.nodes[parent]? with
      | none => simp
      | some n =>
        have hnew : path ∉ n.children.map Prod.fst := by
          intro hpath
          obtain ⟨c, hc, rfl⟩ := List.mem_map.1 hpath
          simp [hnode] at h
          exact h c.2 hc
        simp only [if_pos, Option.map_some, true_and, if_pos hnew]
        by_cases hchild : child = parent
        · rw [if_pos hchild]
          by_cases hmem : parent ∈ n.parents <;> simp [hmem]
        · rw [if_neg hchild]
          rfl
    · rw [if_neg hparent]
      cases hnode : g.nodes[i]? with
      | none => simp
      | some n =>
        have hother : ¬ (i = parent ∧ path ∉ n.children.map Prod.fst) := fun h => hparent h.1.symm
        simp only [Option.map_some, if_neg hother]
        by_cases hchild : child = i
        · rw [if_pos hchild, Option.map_some]
          by_cases hmem : parent ∈ n.parents <;> simp [hmem]
        · rw [if_neg hchild]
          rfl

/-- a node after an import was noted, seen from the node before -/
theorem node?_addEdge {node : GraphNode} (h : (g.addEdge parent path child).node? i = some node) :
    ∃ old, g.node? i = some old ∧ node.module = old.module ∧
      (node.children = old.children ∨
        i = parent ∧ path ∉ old.children.map Prod.fst ∧ node.children = old.children ++ [(path, child)]) := by
  have hmodule := module_addEdge g parent path child i
  have hchildren := children_addEdge g parent path child i
  rw [h] at hmodule hchildren
  obtain ⟨old, hold, heq⟩ := Option.map_eq_some_iff.1 hmodule.symm
  refine ⟨old, hold, heq.symm, ?_⟩
  rw [hold, Option.map_some, Option.map_some, Option.some.injEq] at hchildren
  split at hchildren
  · next hnew => exact Or.inr ⟨hnew.1, hnew.2, hchildren⟩
  · exact Or.inl hchildren

theorem Built.addEdge (h : g.Built natives) (parent : Nat) (path : String) (hchild : child < g.nodes.size) :
    (g.addEdge parent path child).Built natives := by
  have hindex : (g.addEdge parent path child).index = g.index := by
    unfold Graph.addEdge
    split <;> rfl
  have hroot : (g.addEdge parent path child).root = g.root := by
    unfold Graph.addEdge
    split <;> rfl
  refine ⟨?_, fun i node hnode c hc => ?_, fun i node hnode => ?_, fun i node hnode => ?_, fun key i hi => ?_⟩
  · obtain ⟨old, body, hold, hbody⟩ := h.root
    have hlt := h.root_lt
    rw [← size_addEdge g parent path child] at hlt
    obtain ⟨old', hold', hmodule, _⟩ := node?_addEdge (g := g) (Array.getElem?_eq_getElem hlt)
    obtain rfl : old = old' := Option.some.inj (hold.symm.trans hold')
    refine ⟨(g.addEdge parent path child).nodes[g.root], body, ?_, hmodule ▸ hbody⟩
    rw [hroot]
    exact Array.getElem?_eq_getElem hlt
  · rw [size_addEdge]
    obtain ⟨old, hold, _, hsame | ⟨_, _, hmore⟩⟩ := node?_addEdge hnode
    · exact h.children i old hold c (hsame ▸ hc)
    rw [hmore] at hc
    rcases List.mem_append.1 hc with hc | hc
    · exact h.children i old hold c hc
    · rw [List.mem_singleton.1 hc]
      exact hchild
  · obtain ⟨old, hold, hmodule, _⟩ := node?_addEdge hnode
    rw [hmodule]
    exact h.made i old hold
  · obtain ⟨old, hold, hmodule, _⟩ := node?_addEdge hnode
    rw [hmodule, hindex]
    exact h.indexed i old hold
  · rw [hindex] at hi
    rw [size_addEdge]
    exact h.index key i hi

/-! ## The whole graph -/

theorem loadModule_made (h : loadModule loader path = .ok m) : Made natives m ∧ m.key = path := by
  unfold loadModule at h
  cases hload : loader.load path with
  | error e => rw [hload] at h; cases h
  | ok source =>
    rw [hload] at h
    cases hparse : parse source with
    | error e => simp only [hparse] at h; cases h
    | ok body =>
      simp only [hparse] at h
      cases h
      exact ⟨made_ofSource hparse natives path, rfl⟩

/-- the path of a text, seen from a node -/
def pathFrom (g : Graph) (i : Nat) (path : String) : String :=
  (Path.resolve (.ofString (((g.node? i).bind fun n => n.module.path).getD "")) (.ofString path)).render

/-- where a path leads from a node: to the node of its key or to a new one, for the module of the host's that it names
or else for the text that is loaded there; what is still to be followed are the imports of a new text -/
inductive Target (loader : Loader) (natives : List NativeModule) (current : Nat) (path : String) (g : Graph) :
    Nat → Bool → Graph → Prop
  | native {native : NativeModule} {i : Nat} (named : natives.find? (fun n => n.name = path) = some native)
      (index : g.index.find? path = some i) : Target loader natives current path g i false g
  | addNative {native : NativeModule} (named : natives.find? (fun n => n.name = path) = some native)
      (fresh : g.index.find? path = none) :
      Target loader natives current path g (g.add (.ofNative native)).1 false (g.add (.ofNative native)).2
  | text {i : Nat} (unnamed : natives.find? (fun n => n.name = path) = none)
      (index : g.index.find? (g.pathFrom current path) = some i) : Target loader natives current path g i false g
  | addText {m : Module} (unnamed : natives.find? (fun n => n.name = path) = none)
      (fresh : g.index.find? (g.pathFrom current path) = none)
      (loaded : loadModule loader (g.pathFrom current path) = .ok m) :
      Target loader natives current path g (g.add m).1 true (g.add m).2

theorem Target.of_ok {current : Nat} {new : Bool} (h : target loader natives current path g = .ok (child, new, g')) :
    Target loader natives current path g child new g' := by
  unfold target at h
  cases hnative : natives.find? fun n => n.name = path with
  | some native =>
    rw [hnative] at h
    cases hindex : g.index.find? path with
    | some i =>
      simp only [hindex] at h
      cases h
      exact .native hnative hindex
    | none =>
      simp only [hindex] at h
      cases h
      exact .addNative hnative hindex
  | none =>
    have hpath : (Path.resolve (.ofString (((g.node? current).bind fun n => n.module.path).getD ""))
        (.ofString path)).render = g.pathFrom current path := rfl
    simp only [hnative, hpath] at h
    cases hindex : g.index.find? (g.pathFrom current path) with
    | some i =>
      simp only [hindex] at h
      cases h
      exact .text hnative hindex
    | none =>
      simp only [hindex] at h
      cases hload : loadModule loader (g.pathFrom current path) with
      | error e => rw [hload] at h; cases h
      | ok m =>
        rw [hload] at h
        cases h
        exact .addText hnative hindex hload

theorem Target.built {current : Nat} {new : Bool} (ht : Target loader natives current path g child new g')
    (h : g.Built natives) : g'.Built natives ∧ child < g'.nodes.size := by
  have hadd {m : Module} (hm : Made natives m) (hnew : g.index.find? m.key = none) :
      (g.add m).2.Built natives ∧ (g.add m).1 < (g.add m).2.nodes.size :=
    ⟨h.add hm hnew, Nat.lt_of_lt_of_eq (Nat.lt_succ_self _) (size_add _ _).symm⟩
  cases ht with
  | native _ index => exact ⟨h, h.index _ _ index⟩
  | @addNative native named fresh =>
    obtain rfl : native.name = path := by simpa using List.find?_some named
    exact hadd (made_ofNative (List.mem_of_find?_eq_some named)) fresh
  | text _ index => exact ⟨h, h.index _ _ index⟩
  | addText _ fresh loaded =>
    obtain ⟨hm, hkey⟩ := loadModule_made loaded
    exact hadd hm (hkey ▸ fresh)

/-! ## What the building keeps -/

/-- an import that is followed leads to a node, and the others are followed behind it -/
theorem follow_cons_ok {current : Nat} {paths : List String} {waiting waiting' : List Nat}
    (hf : follow loader natives current (path :: paths) waiting g = .ok (waiting', g')) :
    ∃ child new g₁, target loader natives current path g = .ok (child, new, g₁) ∧
      follow loader natives current paths (if new then waiting ++ [child] else waiting)
        (g₁.addEdge current path child) = .ok (waiting', g') := by
  unfold follow at hf
  cases ht : target loader natives current path g with
  | error e => rw [ht] at hf; cases hf
  | ok found =>
    rw [ht] at hf
    exact ⟨_, _, _, rfl, hf⟩

/-- what each import keeps, the imports of a node keep together -/
theorem follow_keeps {P : Graph → Prop} {current : Nat} {paths : List String} {waiting waiting' : List Nat}
    (himport : ∀ {path : String} {child : Nat} {new : Bool} {g g' : Graph}, P g →
      target loader natives current path g = .ok (child, new, g') → P (g'.addEdge current path child))
    (h : P g) (hf : follow loader natives current paths waiting g = .ok (waiting', g')) : P g' := by
  induction paths generalizing waiting g with
  | nil => cases hf; exact h
  | cons path paths ih =>
    obtain ⟨child, new, g₁, ht, hf⟩ := follow_cons_ok hf
    exact ih (himport h ht) hf

/-- what each turn keeps, a graph keeps while it grows, until no turn is left or no node waits -/
theorem grow_keeps {P : Nat → List Nat → Graph → Prop} {turns : Nat} {waiting : List Nat}
    (hturn : ∀ {turns current : Nat} {waiting waiting' : List Nat} {g g' : Graph},
      P (turns + 1) (current :: waiting) g →
      follow loader natives current (((g.node? current).map fun n => n.module.imports).getD []) waiting g =
        .ok (waiting', g') → P turns waiting' g')
    (h : P turns waiting g) (hg : grow loader natives turns waiting g = .ok g') :
    ∃ left rest, (left = 0 ∨ rest = []) ∧ P left rest g' := by
  induction turns generalizing waiting g with
  | zero => cases hg; exact ⟨0, waiting, .inl rfl, h⟩
  | succ turns ih =>
    cases waiting with
    | nil => cases hg; exact ⟨turns + 1, [], .inr rfl, h⟩
    | cons current waiting =>
      unfold grow at hg
      cases hf : follow loader natives current
          (((g.node? current).map fun n => n.module.imports).getD []) waiting g with
      | error e => simp only [hf] at hg; cases hg
      | ok found =>
        simp only [hf] at hg
        exact ih (hturn h hf) hg

theorem grow_built {turns : Nat} {waiting : List Nat} (h : g.Built natives)
    (hg : grow loader natives turns waiting g = .ok g') : g'.Built natives := by
  refine (grow_keeps (P := fun _ _ g => g.Built natives) (fun h hf => ?_) h hg).elim fun _ ⟨_, _, h⟩ => h
  refine follow_keeps (P := fun g => g.Built natives) (fun h ht => ?_) h hf
  obtain ⟨hbuilt, hchild⟩ := (Target.of_ok ht).built h
  exact hbuilt.addEdge _ _ hchild

/-- the graph that is built for the tree of a text -/
theorem built_of_build {rootPath text : String} {root : Block} (hparse : parse text = .ok root)
    (h : build rootPath root loader natives = .ok g) : g.Built natives := by
  refine grow_built ?_ h
  have hnode {i : Nat} {node : GraphNode}
      (hi : ((⟨#[], .empty, 0⟩ : Graph).add (.ofSource rootPath root)).2.node? i = some node) :
      i = 0 ∧ node = ⟨.ofSource rootPath root, [], []⟩ := by
    rw [node?_add] at hi
    split at hi
    · next h => exact ⟨h, (Option.some.inj hi).symm⟩
    · cases hi
  refine ⟨⟨_, root, rfl, rfl⟩, fun i node hi c hc => ?_, fun i node hi => ?_, fun i node hi => ?_, fun key i hi => ?_⟩
  · obtain ⟨_, rfl⟩ := hnode hi
    cases hc
  · obtain ⟨_, rfl⟩ := hnode hi
    exact made_ofSource hparse natives rootPath
  · obtain ⟨rfl, rfl⟩ := hnode hi
    exact (Table.find?_insert _ _ _ _).trans (if_pos rfl)
  · change (Table.empty.insert rootPath 0).find? key = some i at hi
    rw [Table.find?_insert] at hi
    split at hi
    · cases hi; exact Nat.one_pos
    · cases hi

end TypedScript.Graph
