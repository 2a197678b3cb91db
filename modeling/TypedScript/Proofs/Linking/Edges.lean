/-
Where the imports of a graph's nodes lead. An import means the module of the host's that it names, or else the text at
its path, seen from the importing module. Names and paths are keys of the same index: the edge of an import leads to the
one node of its key, which is the module of the host's or the text, whichever was met first.

- `Graph.grow_led`: what each import keeps in a graph whose edges lead to the nodes of their keys, is kept.
- `Graph.led_of_build`: every edge of a graph that is built leads to the node of its import's key.
- `Graph.edge_means`: an edge leads to what its import means, where the import's key is not the name of a module of the
  host's and the path of a text as well.
- `Graph.edges_meet`: two imports of one key lead to the same node, also where they mean different modules, so that one
  of the two is misled (`Graph.edge_misled`).
-/
import TypedScript.Proofs.Linking.Build

namespace TypedScript

namespace Module

/-- the path of the text that a path written in a module leads to -/
def resolve (m : Module) (path : String) : String :=
  (Path.resolve (.ofString (m.path.getD "")) (.ofString path)).render

/-- the key of the module that an import means -/
def importKey (natives : List NativeModule) (importer : Module) (path : String) : String :=
  match natives.find? fun n => n.name = path with
  | some _ => path
  | none => importer.resolve path

/-- what an import means: the module of the host's that it names, or else the text at its path -/
def Means (natives : List NativeModule) (importer : Module) (path : String) (m : Module) : Prop :=
  match natives.find? fun n => n.name = path with
  | some native => m = .ofNative native
  | none => ∃ body, m = .ofSource (importer.resolve path) body

end Module

namespace Graph

variable {natives : List NativeModule} {loader : Loader} {g g' : Graph} {m : Module} {i j parent child current : Nat}
  {node : GraphNode} {path rootPath : String} {root : Block}

/-- a module that a graph of these texts can have: a text under its path, or the module of the host's of a name -/
def Belongs (natives : List NativeModule) (m : Module) : Prop :=
  (∃ path body, m = .ofSource path body) ∨
    ∃ native, (natives.find? fun n => n.name = native.name) = some native ∧ m = .ofNative native

/-- what is kept while a graph grows -/
structure Led (natives : List NativeModule) (g : Graph) : Prop where
  belongs : ∀ i node, g.node? i = some node → Belongs natives node.module
  index : ∀ key i, g.index.find? key = some i → ∃ node, g.node? i = some node ∧ node.module.key = key
  keyed : ∀ i node, g.node? i = some node → g.index.find? node.module.key = some i
  /-- every edge leads to the node of its import's key -/
  edges : ∀ i node, g.node? i = some node → ∀ c ∈ node.children,
    g.index.find? (node.module.importKey natives c.1) = some c.2

/-- a module of the graph with a key is the text there or the module of the host's of that name -/
theorem Belongs.named (h : Belongs natives m) :
    (∃ body, m = .ofSource m.key body) ∨
      ∃ native, (natives.find? fun n => n.name = m.key) = some native ∧ m = .ofNative native := by
  rcases h with ⟨path, body, rfl⟩ | ⟨native, hfind, rfl⟩
  · exact Or.inl ⟨body, rfl⟩
  · exact Or.inr ⟨native, hfind, rfl⟩

/-! ## The steps of the building -/

/-- the nodes that are there keep their indexes -/
theorem index_add (hnew : g.index.find? m.key = none) {key : String} (h : g.index.find? key = some i) :
    (g.add m).2.index.find? key = some i := by
  have hne : m.key ≠ key := by
    rintro rfl
    simp [hnew] at h
  change (g.index.insert m.key g.nodes.size).find? key = some i
  rw [Table.find?_insert, if_neg hne]
  exact h

theorem Led.add (h : g.Led natives) (hm : Belongs natives m) (hnew : g.index.find? m.key = none) :
    (g.add m).2.Led natives := by
  refine ⟨fun i node hi => ?_, fun key i hi => ?_, fun i node hi => ?_, fun i node hi c hc => ?_⟩
  · rw [node?_add] at hi
    split at hi
    · cases hi
      exact hm
    · exact h.belongs i node hi
  · by_cases hkey : m.key = key
    · refine ⟨⟨m, [], []⟩, ?_, hkey⟩
      change (g.index.insert m.key g.nodes.size).find? key = some i at hi
      rw [Table.find?_insert, if_pos hkey, Option.some.injEq] at hi
      rw [node?_add, if_pos hi.symm]
    · change (g.index.insert m.key g.nodes.size).find? key = some i at hi
      rw [Table.find?_insert, if_neg hkey] at hi
      obtain ⟨node, hnode, heq⟩ := h.index key i hi
      refine ⟨node, ?_, heq⟩
      rw [node?_add, if_neg (Nat.ne_of_lt (lt_of_node? hnode))]
      exact hnode
  · rw [node?_add] at hi
    split at hi
    · next hi' =>
      cases hi
      change (g.index.insert m.key g.nodes.size).find? m.key = some i
      rw [Table.find?_insert, if_pos rfl, hi']
    · exact index_add hnew (h.keyed i node hi)
  · rw [node?_add] at hi
    split at hi
    · cases hi
      simp at hc
    · exact index_add hnew (h.edges i node hi c hc)

theorem index_addEdge (g : Graph) (parent : Nat) (path : String) (child : Nat) :
    (g.addEdge parent path child).index = g.index := by
  unfold addEdge
  split <;> rfl

/-- an import is noted that leads to the node of its key -/
theorem Led.addEdge (h : g.Led natives) (hparent : (g.node? parent).map GraphNode.module = some m)
    (hchild : g.index.find? (m.importKey natives path) = some child) : (g.addEdge parent path child).Led natives := by
  refine ⟨fun i node hi => ?_, fun key i hi => ?_, fun i node hi => ?_, fun i node hi c hc => ?_⟩
  · obtain ⟨old, hold, hmodule, _⟩ := node?_addEdge hi
    rw [hmodule]
    exact h.belongs i old hold
  · rw [index_addEdge] at hi
    obtain ⟨old, hold, hkey⟩ := h.index key i hi
    have hmodule := module_addEdge g parent path child i
    rw [hold] at hmodule
    obtain ⟨node, hnode, heq⟩ := Option.map_eq_some_iff.1 hmodule
    exact ⟨node, hnode, by rw [heq, hkey]⟩
  · obtain ⟨old, hold, hmodule, _⟩ := node?_addEdge hi
    rw [index_addEdge, hmodule]
    exact h.keyed i old hold
  · rw [index_addEdge]
    obtain ⟨old, hold, hmodule, hsame | ⟨rfl, _, hmore⟩⟩ := node?_addEdge hi
    · rw [hmodule]
      exact h.edges i old hold c (hsame ▸ hc)
    · rw [hmore] at hc
      rcases List.mem_append.1 hc with hc | hc
      · rw [hmodule]
        exact h.edges i old hold c hc
      · rw [List.mem_singleton.1 hc, hmodule]
        rw [hold, Option.map_some, Option.some.injEq] at hparent
        rw [hparent]
        exact hchild

theorem ofSource_of_loadModule (h : loadModule loader path = .ok m) : ∃ body, m = .ofSource path body := by
  unfold loadModule at h
  split at h
  · simp at h
  · split at h
    · simp at h
    · next body _ => exact ⟨body, (Except.ok.inj h).symm⟩

/-- what an import leads to is found, and stays, under the import's key -/
theorem target_led (h : g.Led natives) (hcurrent : (g.node? current).map GraphNode.module = some m) {new : Bool}
    (ht : target loader natives current path g = .ok (child, new, g')) :
    g'.Led natives ∧ (g'.node? current).map GraphNode.module = some m ∧
      g'.index.find? (m.importKey natives path) = some child ∧
      (g' = g ∨ g.index.find? (m.importKey natives path) = none ∧ ∃ new, g.add new = (child, g')) := by
  obtain ⟨node, hnode, rfl⟩ := Option.map_eq_some_iff.1 hcurrent
  have hkept (m' : Module) : ((g.add m').2.node? current).map GraphNode.module = some node.module := by
    rw [node?_add, if_neg (Nat.ne_of_lt (lt_of_node? hnode))]
    exact hcurrent
  have hfound (m' : Module) : (g.add m').2.index.find? m'.key = some (g.add m').1 :=
    (Table.find?_insert _ _ _ _).trans (if_pos rfl)
  have hpath : g.pathFrom current path = node.module.resolve path := by
    rw [pathFrom, hnode]
    rfl
  unfold Module.importKey
  cases Target.of_ok ht with
  | native named index =>
    rw [named]
    exact ⟨h, hcurrent, index, Or.inl rfl⟩
  | @addNative native named fresh =>
    obtain rfl : native.name = path := by simpa using List.find?_some named
    rw [named]
    exact ⟨h.add (Or.inr ⟨native, named, rfl⟩) fresh, hkept _, hfound (.ofNative native), Or.inr ⟨fresh, _, rfl⟩⟩
  | text unnamed index =>
    rw [unnamed]
    exact ⟨h, hcurrent, hpath ▸ index, Or.inl rfl⟩
  | addText unnamed fresh loaded =>
    rw [hpath] at fresh loaded
    obtain ⟨body, rfl⟩ := ofSource_of_loadModule loaded
    rw [unnamed]
    exact ⟨h.add (Or.inl ⟨_, body, rfl⟩) fresh, hkept _, hfound (.ofSource (node.module.resolve path) body),
      Or.inr ⟨fresh, _, rfl⟩⟩

/-- a node that waits has its module -/
theorem module_of_imports (h : (((g.node? current).map fun n => n.module.imports).getD []) ≠ []) :
    ∃ m, (g.node? current).map GraphNode.module = some m := by
  cases hnode : g.node? current with
  | none => simp [hnode] at h
  | some node => exact ⟨node.module, rfl⟩

/-- what each import keeps whose importer has its module, the graph keeps while it grows -/
theorem grow_led {P : Graph → Prop} {turns : Nat} {waiting : List Nat}
    (himport : ∀ {current child : Nat} {m : Module} {path : String} {new : Bool} {g g' : Graph},
      g.Led natives → P g → (g.node? current).map GraphNode.module = some m →
      target loader natives current path g = .ok (child, new, g') → P (g'.addEdge current path child))
    (h : g.Led natives) (hP : P g) (hg : grow loader natives turns waiting g = .ok g') : g'.Led natives ∧ P g' := by
  refine (grow_keeps (P := fun _ _ g => g.Led natives ∧ P g) ?_ ⟨h, hP⟩ hg).elim fun _ ⟨_, _, h⟩ => h
  intro _ current waiting waiting' g g' ⟨h, hP⟩ hf
  by_cases hnone : ((g.node? current).map fun n => n.module.imports).getD [] = []
  · rw [hnone] at hf
    cases hf
    exact ⟨h, hP⟩
  · obtain ⟨m, hm⟩ := module_of_imports hnone
    refine (follow_keeps (P := fun g => (g.node? current).map GraphNode.module = some m ∧ g.Led natives ∧ P g) ?_
      ⟨hm, h, hP⟩ hf).2
    intro path child new g g' ⟨hm, h, hP⟩ ht
    obtain ⟨hled, hcurrent, hchild, _⟩ := target_led h hm ht
    rw [module_addEdge]
    exact ⟨hcurrent, hled.addEdge hcurrent hchild, himport h hP hm ht⟩

/-- a graph of the root alone -/
def start (rootPath : String) (root : Block) : Graph := ((⟨#[], .empty, 0⟩ : Graph).add (.ofSource rootPath root)).2

theorem led_start (natives : List NativeModule) (rootPath : String) (root : Block) :
    (start rootPath root).Led natives := by
  have hnode {i : Nat} {node : GraphNode} (hi : (start rootPath root).node? i = some node) :
      i = 0 ∧ node = ⟨.ofSource rootPath root, [], []⟩ := by
    rw [start, node?_add] at hi
    split at hi
    · next h => exact ⟨h, (Option.some.inj hi).symm⟩
    · cases hi
  refine ⟨fun i node hi => ?_, fun key i hi => ?_, fun i node hi => ?_, fun i node hi c hc => ?_⟩
  · obtain ⟨_, rfl⟩ := hnode hi
    exact Or.inl ⟨rootPath, root, rfl⟩
  · change (Table.empty.insert rootPath 0).find? key = some i at hi
    rw [Table.find?_insert] at hi
    split at hi
    · next hkey => cases hi; exact ⟨_, rfl, hkey⟩
    · cases hi
  · obtain ⟨rfl, rfl⟩ := hnode hi
    exact (Table.find?_insert _ _ _ _).trans (if_pos rfl)
  · obtain ⟨_, rfl⟩ := hnode hi
    simp at hc

theorem led_of_build (h : build rootPath root loader natives = .ok g) : g.Led natives :=
  (grow_led (P := fun _ => True) (fun _ _ _ _ => trivial) (led_start natives rootPath root) trivial h).1

/-! ## Where edges lead -/

/-- an edge leads to the node of its import's key -/
theorem edge_key (h : g.Led natives) (hnode : g.node? i = some node) (hedge : (path, child) ∈ node.children) :
    ∃ target, g.node? child = some target ∧ Belongs natives target.module ∧
      target.module.key = node.module.importKey natives path := by
  obtain ⟨target, htarget, hkey⟩ := h.index _ _ (h.edges i node hnode (path, child) hedge)
  exact ⟨target, htarget, h.belongs child target htarget, hkey⟩

/-- An edge leads to what its import means. An import of a module of the host's may be misled where there is a text with
the module's name as its path, and an import of a text where its path is such a name; no other is. -/
theorem edge_means (h : build rootPath root loader natives = .ok g) (hnode : g.node? i = some node)
    (hedge : (path, child) ∈ node.children)
    (hname : path ∈ natives.map NativeModule.name → ∀ j other, g.node? j = some other → other.module.path ≠ some path)
    (hpath : path ∉ natives.map NativeModule.name → node.module.resolve path ∉ natives.map NativeModule.name) :
    ∃ target, g.node? child = some target ∧ Module.Means natives node.module path target.module := by
  obtain ⟨target, htarget, hbelongs, hkey⟩ := edge_key (led_of_build h) hnode hedge
  refine ⟨target, htarget, ?_⟩
  unfold Module.Means
  unfold Module.importKey at hkey
  cases hfind : natives.find? fun n => n.name = path with
  | some native =>
    rw [hfind] at hkey
    have hmem : path ∈ natives.map NativeModule.name :=
      List.mem_map.2 ⟨native, List.mem_of_find?_eq_some hfind, by simpa using List.find?_some hfind⟩
    rcases hbelongs.named with ⟨body, hsource⟩ | ⟨other, hother, hnative⟩
    · refine absurd ?_ (hname hmem child target htarget)
      rw [hsource, hkey]
      rfl
    · rw [hkey, hfind, Option.some.injEq] at hother
      rw [hnative, hother]
  | none =>
    rw [hfind] at hkey
    dsimp only at hkey
    rcases hbelongs.named with ⟨body, hsource⟩ | ⟨other, hother, hnative⟩
    · exact ⟨body, by rw [← hkey]; exact hsource⟩
    · have hnot : path ∉ natives.map NativeModule.name := by
        intro hmem
        obtain ⟨n, hn, heq⟩ := List.mem_map.1 hmem
        simpa [heq] using List.find?_eq_none.1 hfind n hn
      refine absurd (List.mem_map.2 ⟨other, List.mem_of_find?_eq_some hother, ?_⟩) (hpath hnot)
      rw [← hkey]
      simpa using List.find?_some hother

/-- two imports of one key lead to the same node -/
theorem edges_meet {node' : GraphNode} {path' : String} {child' : Nat} (h : g.Led natives)
    (hnode : g.node? i = some node) (hedge : (path, child) ∈ node.children)
    (hnode' : g.node? j = some node') (hedge' : (path', child') ∈ node'.children)
    (hkey : node.module.importKey natives path = node'.module.importKey natives path') : child = child' := by
  have hchild := h.edges i node hnode (path, child) hedge
  have hchild' := h.edges j node' hnode' (path', child') hedge'
  rw [hkey, hchild', Option.some.injEq] at hchild
  exact hchild.symm

/-- where one import names a module of the host's and another has the name as its path, one of the two is misled -/
theorem edge_misled {node' : GraphNode} {path' : String} {child' : Nat} {native : NativeModule}
    (h : build rootPath root loader natives = .ok g)
    (hnode : g.node? i = some node) (hedge : (path, child) ∈ node.children)
    (hnode' : g.node? j = some node') (hedge' : (path', child') ∈ node'.children)
    (hname : (natives.find? fun n => n.name = path) = some native)
    (hpath : (natives.find? fun n => n.name = path') = none) (hshared : node'.module.resolve path' = path) :
    ¬ ((∃ target, g.node? child = some target ∧ Module.Means natives node.module path target.module) ∧
      ∃ target, g.node? child' = some target ∧ Module.Means natives node'.module path' target.module) := by
  rintro ⟨⟨target, htarget, hmeans⟩, target', htarget', hmeans'⟩
  have hkey : node.module.importKey natives path = node'.module.importKey natives path' := by
    simp only [Module.importKey, hname, hpath, hshared]
  have hsame := edges_meet (led_of_build h) hnode hedge hnode' hedge' hkey
  obtain rfl : target = target' := by
    rw [← hsame, htarget, Option.some.injEq] at htarget'
    exact htarget'
  simp only [Module.Means, hname] at hmeans
  simp only [Module.Means, hpath] at hmeans'
  obtain ⟨body, hbody⟩ := hmeans'
  rw [hmeans] at hbody
  simp [Module.ofNative, Module.ofSource] at hbody

/-- the path and the imports of each node -/
def outline (g : Graph) : List (Option String × List (String × Nat)) :=
  g.nodes.toList.map fun node => (node.module.path, node.children)

theorem node?_of_outline {x : Option String × List (String × Nat)} (h : g.outline[i]? = some x) :
    ∃ node, g.node? i = some node ∧ node.module.path = x.1 ∧ node.children = x.2 := by
  unfold outline at h
  rw [List.getElem?_map, Array.getElem?_toList] at h
  obtain ⟨node, hnode, rfl⟩ := Option.map_eq_some_iff.1 h
  exact ⟨node, hnode, rfl, rfl⟩

/-- the graph of a text whose loader has a text of a path `lib`, with a module `lib` of the host's -/
def buildOf (source : String) : Option Graph :=
  (parse source).toOption.bind fun body =>
    (build "main" body (.memory (Loader.insert .empty "lib" "")) [⟨"lib", []⟩]).toOption

theorem build_of_buildOf {α : Type} {f : Graph → α} {x : α} {source : String} (h : (buildOf source).map f = some x) :
    ∃ body g, build "main" body (.memory (Loader.insert .empty "lib" "")) [⟨"lib", []⟩] = .ok g ∧ f g = x := by
  obtain ⟨g, hg, hx⟩ := Option.map_eq_some_iff.1 h
  obtain ⟨body, _, hbuild⟩ := Option.bind_eq_some_iff.1 hg
  refine ⟨body, g, ?_, hx⟩
  cases hb : build "main" body (.memory (Loader.insert .empty "lib" "")) [⟨"lib", []⟩] with
  | error e => simp [hb, Except.toOption] at hbuild
  | ok g' => simpa [hb, Except.toOption] using hbuild

/-- the import of a module of the host's, where nothing imports a text with its name as its path -/
theorem edge_means_native : ∃ body g node target,
    build "main" body (.memory (Loader.insert .empty "lib" "")) [⟨"lib", []⟩] = .ok g ∧ g.node? 0 = some node ∧
      ("lib", 1) ∈ node.children ∧ g.node? 1 = some target ∧
        Module.Means [⟨"lib", []⟩] node.module "lib" target.module := by
  have houtline : (buildOf "use \"lib\";").map outline = some [(some "main", [("lib", 1)]), (none, [])] := by
    decide +kernel
  obtain ⟨body, g, hbuild, hnodes⟩ := build_of_buildOf houtline
  obtain ⟨node, hnode, _, hchildren⟩ := @node?_of_outline g 0 _ (by rw [hnodes]; rfl)
  have hedge : ("lib", 1) ∈ node.children := by simp [hchildren]
  have hfree : ∀ j other, g.node? j = some other → other.module.path ≠ some "lib" := by
    intro j other hother hpath
    have hin : (other.module.path, other.children) ∈ g.outline :=
      List.mem_map_of_mem (Array.mem_toList_iff.2 (Array.mem_of_getElem? hother))
    simp [hnodes, hpath] at hin
  obtain ⟨target, htarget, hmeans⟩ := edge_means hbuild hnode hedge (fun _ => hfree) fun h => absurd h (by decide)
  exact ⟨body, g, node, target, hbuild, hnode, hedge, htarget, hmeans⟩

/-- An edge does not always lead to what its import means: the import of a text at a path leads to the module of the
host's with the path as its name. -/
theorem edge_misled_clashing : ¬ ∀ (natives : List NativeModule) (loader : Loader) (rootPath : String) (root : Block)
    (g : Graph) (i child : Nat) (node : GraphNode) (path : String),
      (natives.map NativeModule.name).Nodup → (Path.ofString rootPath).normalize.render = rootPath →
      build rootPath root loader natives = .ok g → g.node? i = some node → (path, child) ∈ node.children →
        ∃ target, g.node? child = some target ∧ Module.Means natives node.module path target.module := by
  intro hall
  have houtline : (buildOf "use \"lib\"; use \"./lib\";").map outline =
      some [(some "main", [("lib", 1), ("./lib", 1)]), (none, [])] := by decide +kernel
  obtain ⟨body, g, hbuild, hnodes⟩ := build_of_buildOf houtline
  obtain ⟨node, hnode, _, hchildren⟩ := @node?_of_outline g 0 _ (by rw [hnodes]; rfl)
  obtain ⟨other, hother, hpath, _⟩ := @node?_of_outline g 1 _ (by rw [hnodes]; rfl)
  have hedge : ("./lib", 1) ∈ node.children := by simp [hchildren]
  obtain ⟨target, htarget, text, htext⟩ := hall _ _ "main" body g 0 1 node "./lib" (by decide) (by decide +kernel)
    hbuild hnode hedge
  rw [hother, Option.some.injEq] at htarget
  rw [htarget, htext] at hpath
  simp [Module.ofSource] at hpath

end Graph

end TypedScript
