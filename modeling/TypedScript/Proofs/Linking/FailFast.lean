/-
The building of a graph goes along with the walk over the modules of a program: it asks the loader for the texts that
the walk meets, one after the other and each once, until it comes to one that cannot be had.

- `Graph.Comes`: how the building ends, whatever number of turns it takes.
- `Graph.Recorded`, `Graph.recordBuild`: building that writes down what the loader is asked for;
  `Graph.answer_recordBuild` says that it builds the same graph.
- `Graph.Along`, `Graph.along_grow`: the building and the walk, step by step.
- `Graph.fails_fast`: the building ends, and with a graph just if every text that the walk meets can be had.
-/
import TypedScript.Proofs.Linking.Shape
import TypedScript.Proofs.Linking.Walk

namespace TypedScript.Graph

variable {natives : List NativeModule} {loader : Loader} {g g' : Graph} {m : Module} {i child current : Nat}
  {node : GraphNode} {path rootPath : String} {root : Block} {waiting waiting' : List Nat} {first : Module}

/-! ## The end of the building -/

/-- what following the imports of the nodes that wait, and of those that they add, comes to in the end -/
inductive Comes (loader : Loader) (natives : List NativeModule) : List Nat → Graph → Except GraphError Graph → Prop
  | done {g : Graph} : Comes loader natives [] g (.ok g)
  | stop {current : Nat} {waiting : List Nat} {g : Graph} {e : GraphError}
      (fails : follow loader natives current (((g.node? current).map fun n => n.module.imports).getD []) waiting g =
        .error e) :
      Comes loader natives (current :: waiting) g (.error e)
  | turn {current : Nat} {waiting waiting' : List Nat} {g g' : Graph} {result : Except GraphError Graph}
      (follows : follow loader natives current (((g.node? current).map fun n => n.module.imports).getD []) waiting g =
        .ok (waiting', g')) (rest : Comes loader natives waiting' g' result) :
      Comes loader natives (current :: waiting) g result

theorem grow_cons (turns : Nat) (current : Nat) (waiting : List Nat) (g : Graph) :
    grow loader natives (turns + 1) (current :: waiting) g =
      match follow loader natives current (((g.node? current).map fun n => n.module.imports).getD []) waiting g with
      | .error e => .error e
      | .ok found => grow loader natives turns found.1 found.2 := by
  rw [grow]
  dsimp only
  cases follow loader natives current (((g.node? current).map fun n => n.module.imports).getD []) waiting g <;> rfl

/-- as many turns as there can still be sources to follow are enough -/
theorem comes_of_grow {turns : Nat} (h : Underway natives loader first turns waiting g) :
    Comes loader natives waiting g (grow loader natives turns waiting g) := by
  induction turns generalizing waiting g with
  | zero =>
    obtain rfl := h.eq_nil
    exact .done
  | succ turns ih =>
    cases waiting with
    | nil => exact .done
    | cons current waiting =>
      rw [grow_cons]
      cases hf : follow loader natives current
          (((g.node? current).map fun n => n.module.imports).getD []) waiting g with
      | error e => exact .stop hf
      | ok found => exact .turn hf (ih (h.turn hf))

/-! ## What the loader is asked for -/

/-- building that writes down the paths at which the loader is asked for a text, also where it stops -/
abbrev Recorded := EStateM GraphError (List String)

namespace Recorded

variable {α β : Type}

/-- what is built, without the record -/
def answer : EStateM.Result GraphError (List String) α → Except GraphError α
  | .ok a _ => .ok a
  | .error e _ => .error e

theorem bind_apply (x : Recorded α) (f : α → Recorded β) (asked : List String) :
    (x >>= f) asked =
      match x asked with
      | .ok a asked => f a asked
      | .error e asked => .error e asked := by
  change EStateM.bind x f asked = _
  unfold EStateM.bind
  cases x asked <;> rfl

end Recorded

/-- the paths at which the loader was asked for a text -/
def requests {α : Type} : EStateM.Result GraphError (List String) α → List String
  | .ok _ asked => asked
  | .error _ asked => asked

/-- ask the loader for the text at a path -/
def recordLoad (loader : Loader) (path : String) : Recorded Module := fun asked =>
  match loadModule loader path with
  | .ok m => .ok m (asked ++ [path])
  | .error e => .error e (asked ++ [path])

def recordTarget (loader : Loader) (natives : List NativeModule) (current : Nat) (path : String) (g : Graph) :
    Recorded (Nat × Bool × Graph) :=
  match natives.find? fun n => n.name = path with
  | some native =>
    match g.index.find? path with
    | some i => return (i, false, g)
    | none => return ((g.add (.ofNative native)).1, false, (g.add (.ofNative native)).2)
  | none =>
    let importer := ((g.node? current).bind fun n => n.module.path).getD ""
    let resolved := (Path.resolve (.ofString importer) (.ofString path)).render
    match g.index.find? resolved with
    | some i => return (i, false, g)
    | none => do
      let m ← recordLoad loader resolved
      return ((g.add m).1, true, (g.add m).2)

def recordFollow (loader : Loader) (natives : List NativeModule) (current : Nat) :
    List String → List Nat → Graph → Recorded (List Nat × Graph)
  | [], waiting, g => return (waiting, g)
  | path :: paths, waiting, g => do
    let (child, new, g) ← recordTarget loader natives current path g
    recordFollow loader natives current paths (if new then waiting ++ [child] else waiting)
      (g.addEdge current path child)

def recordGrow (loader : Loader) (natives : List NativeModule) : Nat → List Nat → Graph → Recorded Graph
  | 0, _, g => return g
  | _ + 1, [], g => return g
  | turns + 1, current :: waiting, g => do
    let imports := ((g.node? current).map fun n => n.module.imports).getD []
    let (waiting, g) ← recordFollow loader natives current imports waiting g
    recordGrow loader natives turns waiting g

/-- the building of a graph with the paths at which the loader is asked for a text, in their order -/
def recordBuild (rootPath : String) (root : Block) (loader : Loader) (natives : List NativeModule) :
    EStateM.Result GraphError (List String) Graph :=
  recordGrow loader natives (loader.capacity + 1) [0] (start rootPath root) []

open Recorded (answer)

theorem answer_recordTarget (g : Graph) (asked : List String) :
    answer (recordTarget loader natives current path g asked) = target loader natives current path g := by
  unfold recordTarget target
  cases natives.find? fun n => n.name = path with
  | some native => cases g.index.find? path <;> rfl
  | none =>
    dsimp only
    generalize (Path.resolve (.ofString (((g.node? current).bind fun n => n.module.path).getD ""))
      (.ofString path)).render = resolved
    cases g.index.find? resolved with
    | some i => rfl
    | none =>
      dsimp only
      rw [Recorded.bind_apply, recordLoad]
      cases loadModule loader resolved <;> rfl

theorem answer_recordFollow (paths : List String) (waiting : List Nat) (g : Graph) (asked : List String) :
    answer (recordFollow loader natives current paths waiting g asked) =
      follow loader natives current paths waiting g := by
  induction paths generalizing waiting g asked with
  | nil => rfl
  | cons path paths ih =>
    unfold recordFollow follow
    rw [Recorded.bind_apply, ← answer_recordTarget g asked]
    cases recordTarget loader natives current path g asked with
    | error e asked => rfl
    | ok found asked => exact ih _ _ asked

theorem answer_recordGrow (turns : Nat) (waiting : List Nat) (g : Graph) (asked : List String) :
    answer (recordGrow loader natives turns waiting g asked) = grow loader natives turns waiting g := by
  induction turns generalizing waiting g asked with
  | zero => rfl
  | succ turns ih =>
    cases waiting with
    | nil => rfl
    | cons current waiting =>
      unfold recordGrow grow
      dsimp only
      rw [Recorded.bind_apply, ← answer_recordFollow _ waiting g asked]
      cases recordFollow loader natives current _ waiting g asked with
      | error e asked => rfl
      | ok found asked => exact ih _ _ asked

theorem answer_recordBuild (rootPath : String) (root : Block) (loader : Loader) (natives : List NativeModule) :
    answer (recordBuild rootPath root loader natives) = build rootPath root loader natives :=
  answer_recordGrow _ _ _ _

/-! ## The building and the walk -/

/-- A part of the building goes along with the walk: it asks for the texts that the walk meets next, and comes to
something when all of them can be had, or else it stops at the first one that cannot. -/
def Along {α : Type} (loader : Loader) (asked met : List String)
    (result : EStateM.Result GraphError (List String) α) (Q : α → List String → List String → Prop) : Prop :=
  match result with
  | .ok a asked' => ∃ here rest, met = here ++ rest ∧ asked' = asked ++ here ∧ (∀ path ∈ here, loader.Reads path) ∧
      Q a asked' rest
  | .error e asked' => ∃ before path after, met = before ++ path :: after ∧ asked' = asked ++ before ++ [path] ∧
      (∀ path ∈ before, loader.Reads path) ∧ loader.Refuses path e

section

variable {α β : Type} {asked met : List String} {Q : α → List String → List String → Prop}

theorem along_pure {a : α} (h : Q a asked met) : Along loader asked met ((pure a : Recorded α) asked) Q :=
  ⟨[], met, rfl, (List.append_nil asked).symm, fun _ hmem => (nomatch hmem), h⟩

theorem Along.bind {x : Recorded α} {f : α → Recorded β} {R : β → List String → List String → Prop}
    (hx : Along loader asked met (x asked) Q)
    (hf : ∀ a asked' rest, x asked = .ok a asked' → Q a asked' rest → Along loader asked' rest (f a asked') R) :
    Along loader asked met ((x >>= f) asked) R := by
  rw [Recorded.bind_apply]
  cases hresult : x asked with
  | error e asked' =>
    rw [hresult] at hx
    exact hx
  | ok a asked' =>
    rw [hresult] at hx
    obtain ⟨here, rest, rfl, rfl, hreads, hQ⟩ := hx
    have hrest := hf a _ rest hresult hQ
    dsimp only
    cases hlast : f a (asked ++ here) with
    | ok b asked'' =>
      rw [hlast] at hrest
      obtain ⟨here', rest', rfl, rfl, hreads', hR⟩ := hrest
      refine ⟨here ++ here', rest', (List.append_assoc _ _ _).symm, List.append_assoc _ _ _, ?_, hR⟩
      exact fun path hpath => (List.mem_append.1 hpath).elim (hreads path) (hreads' path)
    | error e asked'' =>
      rw [hlast] at hrest
      obtain ⟨before, path, after, rfl, rfl, hreads', hrefuses⟩ := hrest
      refine ⟨here ++ before, path, after, (List.append_assoc _ _ _).symm, by simp, ?_, hrefuses⟩
      exact fun path hpath => (List.mem_append.1 hpath).elim (hreads path) (hreads' path)

/-- the next text that the walk meets is asked for -/
theorem along_load (path : String) (rest : List String) :
    Along loader asked (path :: rest) (recordLoad loader path asked) fun m asked' rest' =>
      loadModule loader path = .ok m ∧ asked' = asked ++ [path] ∧ rest' = rest := by
  unfold recordLoad
  cases hload : loadModule loader path with
  | error e => exact ⟨[], path, rest, rfl, by simp, fun _ hmem => (nomatch hmem), Loader.loadModule_error hload⟩
  | ok m => exact ⟨[path], rest, rfl, rfl, by simpa using Loader.loadModule_ok hload, rfl, rfl, rfl⟩

end

/-! ### The graph as the walk sees it -/

/-- the imports of the nodes that wait -/
def pendingUses (g : Graph) (natives : List NativeModule) (waiting : List Nat) : List Use :=
  waiting.flatMap fun i => ((g.node? i).map fun n => n.module.uses natives).getD []

theorem pendingUses_addEdge (g : Graph) (parent : Nat) (path : String) (child : Nat) (waiting : List Nat) :
    (g.addEdge parent path child).pendingUses natives waiting = g.pendingUses natives waiting := by
  unfold pendingUses
  refine List.flatMap_congr fun i _ => ?_
  have hmodule := congrArg (Option.map fun m : Module => m.uses natives) (module_addEdge g parent path child i)
  rw [Option.map_map, Option.map_map] at hmodule
  exact congrArg (Option.getD · []) hmodule

theorem pendingUses_add (m : Module) (hwaiting : ∀ i ∈ waiting, i < g.nodes.size) :
    (g.add m).2.pendingUses natives waiting = g.pendingUses natives waiting := by
  unfold pendingUses
  refine List.flatMap_congr fun i hi => ?_
  rw [node?_add, if_neg (Nat.ne_of_lt (hwaiting i hi))]

/-- the keys of the sources, in the order of their nodes -/
def sourceKeys (g : Graph) : List String := (g.modules.filter fun m => !m.isNative).map Module.key

theorem sourceKeys_addEdge (g : Graph) (parent : Nat) (path : String) (child : Nat) :
    (g.addEdge parent path child).sourceKeys = g.sourceKeys := by
  unfold sourceKeys
  rw [modules_addEdge]

theorem sourceKeys_add (g : Graph) (m : Module) :
    (g.add m).2.sourceKeys = g.sourceKeys ++ if m.isNative then [] else [m.key] := by
  unfold sourceKeys
  rw [modules_add, List.filter_append, List.map_append]
  cases h : m.isNative <;> simp [h]

/-- a graph in the middle of the walk: its keys are those that the walk knows, and its sources are the root and the
texts that were asked for -/
structure Midway (loader : Loader) (natives : List NativeModule) (rootPath : String) (g : Graph) (queue : List Use)
    (asked met : List String) : Prop where
  led : g.Led natives
  sources : g.sourceKeys = rootPath :: asked
  walk : ∃ known, (∀ key, key ∈ known ↔ (g.index.find? key).isSome = true) ∧ Walks loader natives queue known met

variable {asked met : List String} {queue : List Use} {use : Use}

theorem Midway.addEdge (h : Midway loader natives rootPath g queue asked met)
    (hled : (g.addEdge current path child).Led natives) :
    Midway loader natives rootPath (g.addEdge current path child) queue asked met := by
  obtain ⟨known, hknown, hwalk⟩ := h.walk
  refine ⟨hled, (sourceKeys_addEdge _ _ _ _).trans h.sources, known, fun key => ?_, hwalk⟩
  rw [index_addEdge]
  exact hknown key

/-- the keys of a graph with one more node -/
theorem known_add {known : List String} (hknown : ∀ key, key ∈ known ↔ (g.index.find? key).isSome = true) (m : Module)
    (key : String) : key ∈ m.key :: known ↔ ((g.add m).2.index.find? key).isSome = true := by
  change _ ↔ ((g.index.insert m.key g.nodes.size).find? key).isSome = true
  rw [Table.find?_insert, List.mem_cons]
  by_cases hkey : m.key = key
  · simp [hkey]
  · rw [if_neg hkey, ← hknown key]
    exact or_iff_right (Ne.symm hkey)

/-- the import of a key that is there is passed over -/
theorem Midway.pass (h : Midway loader natives rootPath g (use :: queue) asked met)
    (hold : g.index.find? use.key = some i) : Midway loader natives rootPath g queue asked met := by
  obtain ⟨known, hknown, hwalk⟩ := h.walk
  refine ⟨h.led, h.sources, known, hknown, ?_⟩
  have hmem : use.key ∈ known := (hknown _).2 (by rw [hold]; rfl)
  cases hwalk with
  | known _ rest => exact rest
  | native new _ _ => exact absurd hmem new
  | text new _ _ => exact absurd hmem new

/-- a module of the host's gets a node -/
theorem Midway.native {native : NativeModule} (h : Midway loader natives rootPath g (use :: queue) asked met)
    (hkey : use.key = native.name) (hnew : g.index.find? use.key = none) (hhost : use.native = true)
    (hled : (g.add (.ofNative native)).2.Led natives) :
    Midway loader natives rootPath (g.add (.ofNative native)).2 queue asked met := by
  obtain ⟨known, hknown, hwalk⟩ := h.walk
  have hnot : use.key ∉ known := fun hmem => by
    rw [hknown, hnew] at hmem
    cases hmem
  refine ⟨hled, ?_, use.key :: known, ?_, ?_⟩
  · rw [sourceKeys_add, h.sources]
    exact List.append_nil _
  · rw [hkey]
    exact known_add hknown (.ofNative native)
  · cases hwalk with
    | known old _ => exact absurd old hnot
    | native _ _ rest => exact rest
    | text _ own _ =>
      rw [hhost] at own
      cases own

/-- the import of a text that is not there is the next that the walk meets -/
theorem Midway.meets (h : Midway loader natives rootPath g (use :: queue) asked met)
    (hnew : g.index.find? use.key = none) (hown : use.native = false) : ∃ rest, met = use.key :: rest ∧
      ∀ m, loadModule loader use.key = .ok m → (g.add m).2.Led natives →
        Midway loader natives rootPath (g.add m).2 (queue ++ m.uses natives) (asked ++ [use.key]) rest := by
  obtain ⟨known, hknown, hwalk⟩ := h.walk
  have hnot : use.key ∉ known := fun hmem => by
    rw [hknown, hnew] at hmem
    cases hmem
  cases hwalk with
  | known old _ => exact absurd old hnot
  | native _ host _ =>
    rw [hown] at host
    cases host
  | @text _ _ _ rest _ _ hrest =>
    refine ⟨rest, rfl, fun m hload hled => ⟨hled, ?_, use.key :: known, ?_, ?_⟩⟩
    · obtain ⟨body, rfl⟩ := ofSource_of_loadModule hload
      rw [sourceKeys_add, h.sources]
      rfl
    · obtain ⟨body, rfl⟩ := ofSource_of_loadModule hload
      exact known_add hknown (.ofSource use.key body)
    · rw [usesAt, hload] at hrest
      exact hrest

/-- where an import leads, a text is asked for only if it is the next that the walk meets -/
theorem along_target (h : Midway loader natives rootPath g (m.use natives path :: queue) asked met)
    (hcurrent : (g.node? current).map GraphNode.module = some m) :
    Along loader asked met (recordTarget loader natives current path g asked) fun found asked' rest =>
      Midway loader natives rootPath found.2.2
        (queue ++ if found.2.1 then found.2.2.pendingUses natives [found.1] else []) asked' rest := by
  obtain ⟨node, hnode, rfl⟩ := Option.map_eq_some_iff.1 hcurrent
  unfold recordTarget
  cases hnative : natives.find? fun n => n.name = path with
  | some native =>
    have hkey : (node.module.use natives path).key = path := by simp only [Module.use, Module.importKey, hnative]
    have hhost : (node.module.use natives path).native = true := by simp only [Module.use, hnative, Option.isSome_some]
    have hname : native.name = path := by simpa using List.find?_some hnative
    dsimp only
    cases hindex : g.index.find? path with
    | some i =>
      refine along_pure ?_
      simpa using h.pass (hkey.symm ▸ hindex)
    | none =>
      have hadded : (g.add (.ofNative native)).2.Led natives := by
        refine h.led.add (Or.inr ⟨native, ?_, rfl⟩) ?_
        · rw [hname, hnative]
        · rw [← hindex, ← hname]
          rfl
      refine along_pure ?_
      simpa using h.native (hkey.trans hname.symm) (hkey.symm ▸ hindex) hhost hadded
  | none =>
    have hkey : (node.module.use natives path).key = node.module.resolve path := by
      simp only [Module.use, Module.importKey, hnative]
    have hown : (node.module.use natives path).native = false := by simp only [Module.use, hnative, Option.isSome_none]
    have hresolve : (Path.resolve (.ofString (node.module.path.getD "")) (.ofString path)).render =
      node.module.resolve path := rfl
    simp only [hnode, Option.bind_some, hresolve]
    cases hindex : g.index.find? (node.module.resolve path) with
    | some i =>
      refine along_pure ?_
      simpa using h.pass (hkey.symm ▸ hindex)
    | none =>
      obtain ⟨rest, rfl, hnext⟩ := h.meets (hkey.symm ▸ hindex) hown
      rw [hkey] at hnext ⊢
      refine (along_load _ _).bind fun loaded asked' rest' _ hloaded => ?_
      obtain ⟨hload, rfl, rfl⟩ := hloaded
      refine along_pure ?_
      obtain ⟨body, rfl⟩ := ofSource_of_loadModule hload
      have hmidway := hnext _ hload (h.led.add (Or.inl ⟨_, body, rfl⟩) hindex)
      have hwaits : (g.add (.ofSource (node.module.resolve path) body)).2.pendingUses natives [g.nodes.size] =
          (Module.ofSource (node.module.resolve path) body).uses natives := by
        unfold pendingUses
        rw [List.flatMap_singleton, node?_add, if_pos rfl]
        rfl
      rw [← hwaits] at hmidway
      exact hmidway

/-- the nodes that wait keep their imports -/
theorem pendingUses_target {new : Bool} (hthere : ∀ i ∈ waiting, i < g.nodes.size)
    (ht : target loader natives current path g = .ok (child, new, g')) :
    g'.pendingUses natives (if new then waiting ++ [child] else waiting) =
      g.pendingUses natives waiting ++ if new then g'.pendingUses natives [child] else [] := by
  have hkept : g'.pendingUses natives waiting = g.pendingUses natives waiting := by
    rcases target_cases ht with ⟨rfl, _⟩ | ⟨m, _, rfl, _⟩
    · rfl
    · exact pendingUses_add m hthere
  cases new with
  | true => exact List.flatMap_append.trans (congrArg (· ++ _) hkept)
  | false => exact hkept.trans (List.append_nil _).symm

/-- and they stay nodes, as the new one is -/
theorem there_target {new : Bool} (hthere : ∀ i ∈ waiting, i < g.nodes.size)
    (ht : target loader natives current path g = .ok (child, new, g')) :
    ∀ i ∈ (if new then waiting ++ [child] else waiting), i < g'.nodes.size := by
  rcases target_cases ht with ⟨rfl, rfl⟩ | ⟨m, rfl, rfl, rfl, _⟩
  · exact hthere
  have hsize := g.size_add m
  have hold : ∀ i ∈ waiting, i < (g.add m).2.nodes.size := fun i hi => hsize ▸ Nat.lt_succ_of_lt (hthere i hi)
  intro i hi
  split at hi
  · rcases List.mem_append.1 hi with hi | hi
    · exact hold i hi
    · rw [List.mem_singleton.1 hi, hsize]
      exact Nat.lt_succ_self _
  · exact hold i hi

theorem target_of_record {found : Nat × Bool × Graph} {asked' : List String}
    (h : recordTarget loader natives current path g asked = .ok found asked') :
    target loader natives current path g = .ok found := by
  rw [← answer_recordTarget g asked, h]
  rfl

theorem follow_of_record {paths : List String} {found : List Nat × Graph} {asked' : List String}
    (h : recordFollow loader natives current paths waiting g asked = .ok found asked') :
    follow loader natives current paths waiting g = .ok found := by
  rw [← answer_recordFollow paths waiting g asked, h]
  rfl

/-- following the imports of a node goes along with the walk over them -/
theorem along_follow {paths : List String} (hcurrent : (g.node? current).map GraphNode.module = some m)
    (hthere : ∀ i ∈ waiting, i < g.nodes.size)
    (h : Midway loader natives rootPath g (paths.map (m.use natives) ++ g.pendingUses natives waiting) asked met) :
    Along loader asked met (recordFollow loader natives current paths waiting g asked) fun found asked' rest =>
      Midway loader natives rootPath found.2 (found.2.pendingUses natives found.1) asked' rest := by
  induction paths generalizing waiting g asked met with
  | nil => exact along_pure h
  | cons path paths ih =>
    unfold recordFollow
    refine (along_target h hcurrent).bind fun ⟨child, new, g₁⟩ asked' rest hresult hmidway => ?_
    have htarget := target_of_record hresult
    obtain ⟨hled, hcurrent₁, hchild, _⟩ := target_led h.led hcurrent htarget
    refine ih ?_ ?_ ?_
    · rw [module_addEdge]
      exact hcurrent₁
    · rw [size_addEdge]
      exact there_target hthere htarget
    · rw [pendingUses_addEdge, pendingUses_target hthere htarget, ← List.append_assoc]
      exact hmidway.addEdge (hled.addEdge hcurrent₁ hchild)

/-- where nothing waits any more, the walk has come to its end as well -/
theorem along_end (h : Midway loader natives rootPath g (g.pendingUses natives []) asked met) :
    Along loader asked met ((pure g : Recorded Graph) asked) fun built asked' rest =>
      rest = [] ∧ built.sourceKeys = rootPath :: asked' := by
  obtain ⟨_, _, hwalk⟩ := h.walk
  cases hwalk
  exact along_pure ⟨rfl, h.sources⟩

/-- the whole building goes along with the walk, to its end -/
theorem along_grow {turns : Nat} (hunderway : Underway natives loader first turns waiting g)
    (h : Midway loader natives rootPath g (g.pendingUses natives waiting) asked met) :
    Along loader asked met (recordGrow loader natives turns waiting g asked) fun built asked' rest =>
      rest = [] ∧ built.sourceKeys = rootPath :: asked' := by
  induction turns generalizing waiting g asked met with
  | zero =>
    obtain rfl := hunderway.eq_nil
    exact along_end h
  | succ turns ih =>
    cases waiting with
    | nil => exact along_end h
    | cons current waiting =>
      obtain ⟨node, hnode⟩ := hunderway.growing.pending_node List.mem_cons_self
      have hqueue : g.pendingUses natives (current :: waiting) =
          (((g.node? current).map fun n => n.module.imports).getD []).map (node.module.use natives) ++
            g.pendingUses natives waiting := by
        unfold pendingUses
        rw [List.flatMap_cons, hnode]
        rfl
      rw [hqueue] at h
      have hthere : ∀ i ∈ waiting, i < g.nodes.size :=
        fun i hi => hunderway.growing.there i (List.mem_cons_of_mem _ hi)
      unfold recordGrow
      dsimp only
      refine (along_follow (congrArg _ hnode) hthere h).bind fun ⟨waiting', g₁⟩ asked' rest hresult hmidway => ?_
      exact ih (hunderway.turn (follow_of_record hresult)) hmidway

/-! ## The graph of a program -/

/-- the imports of the root wait at the start -/
theorem midway_start (natives : List NativeModule) (rootPath : String) (root : Block)
    (h : Walks loader natives ((Module.ofSource rootPath root).uses natives) [rootPath] met) :
    Midway loader natives rootPath (start rootPath root) ((start rootPath root).pendingUses natives [0]) [] met := by
  refine ⟨led_start natives rootPath root, rfl, [rootPath], fun key => ?_, ?_⟩
  · change _ ↔ ((Table.empty.insert rootPath 0).find? key).isSome = true
    rw [Table.find?_insert, List.mem_singleton]
    by_cases hkey : rootPath = key
    · simp [hkey]
    · rw [if_neg hkey]
      exact ⟨fun heq => absurd heq.symm hkey, fun hsome => nomatch hsome⟩
  · have hqueue : (start rootPath root).pendingUses natives [0] = (Module.ofSource rootPath root).uses natives :=
      List.flatMap_singleton _ _
    rw [hqueue]
    exact h

/-- How the building of a graph goes by the texts that the walk meets. -/
structure GoesBy (loader : Loader) (natives : List NativeModule) (rootPath : String)
    (root : Block) (met : List String) :
    Prop where
  /-- it ends when no node waits any more, or where it fails -/
  ends : Comes loader natives [0] (start rootPath root) (build rootPath root loader natives)
  /-- and the record is one of this building -/
  recorded : answer (recordBuild rootPath root loader natives) = build rootPath root loader natives
  /-- no text is asked for twice, and the root is never asked for -/
  once : (rootPath :: requests (recordBuild rootPath root loader natives)).Nodup
  built : ∀ g, build rootPath root loader natives = .ok g →
    requests (recordBuild rootPath root loader natives) = met ∧ g.sourceKeys = rootPath :: met
  /-- there is a graph just if every text that is met can be had -/
  succeeds : (∃ g, build rootPath root loader natives = .ok g) ↔ ∀ path ∈ met, loader.Reads path
  /-- otherwise the error is that of the first one that cannot, and nothing is asked for after it -/
  fails : ∀ e, build rootPath root loader natives = .error e → ∃ before path after, met = before ++ path :: after ∧
    (∀ earlier ∈ before, loader.Reads earlier) ∧ loader.Refuses path e ∧
      requests (recordBuild rootPath root loader natives) = before ++ [path]

/-- whatever the loader has, the building goes by the walk from the imports of the root -/
theorem goesBy_of_walks (h : Walks loader natives ((Module.ofSource rootPath root).uses natives) [rootPath] met) :
    GoesBy loader natives rootPath root met := by
  have hunderway := underway_start natives loader rootPath root
  have hends : Comes loader natives [0] (start rootPath root) (build rootPath root loader natives) :=
    comes_of_grow hunderway
  have hrecorded := answer_recordBuild rootPath root loader natives
  have halong : Along loader [] met (recordBuild rootPath root loader natives) fun g asked rest =>
      rest = [] ∧ g.sourceKeys = rootPath :: asked :=
    along_grow hunderway (midway_start natives rootPath root h)
  obtain ⟨hnodup, hnew⟩ := h.nodup
  have hall : (rootPath :: met).Nodup :=
    List.nodup_cons.2 ⟨fun hmem => hnew _ hmem List.mem_cons_self, hnodup⟩
  cases hrecord : recordBuild rootPath root loader natives with
  | ok g asked =>
    rw [hrecord] at halong
    obtain ⟨here, rest, rfl, rfl, hreads, rfl, hsources⟩ := halong
    rw [List.append_nil] at hall ⊢
    have hbuild : build rootPath root loader natives = .ok g := by
      rw [← hrecorded, hrecord]
      rfl
    refine ⟨hends, hrecorded, ?_, fun g' hg' => ?_, ⟨fun _ => hreads, fun _ => ⟨g, hbuild⟩⟩, fun e he => ?_⟩
    · rw [hrecord]
      exact hall
    · obtain rfl : g = g' := Except.ok.inj (hbuild.symm.trans hg')
      rw [hrecord]
      exact ⟨rfl, hsources⟩
    · rw [hbuild] at he
      cases he
  | error e asked =>
    rw [hrecord] at halong
    obtain ⟨before, path, after, rfl, rfl, hreads, hrefuses⟩ := halong
    have hbuild : build rootPath root loader natives = .error e := by
      rw [← hrecorded, hrecord]
      rfl
    refine ⟨hends, hrecorded, ?_, fun g hg => ?_, ⟨?_, fun hevery => ?_⟩, fun e' he' => ?_⟩
    · rw [hrecord]
      refine hall.sublist (List.Sublist.cons_cons _ ?_)
      exact (List.Sublist.refl before).append (List.singleton_sublist.2 List.mem_cons_self)
    · rw [hbuild] at hg
      cases hg
    · rintro ⟨g, hg⟩
      rw [hbuild] at hg
      cases hg
    · exact absurd (hevery path (List.mem_append_right _ List.mem_cons_self)) hrefuses.not_reads
    · obtain rfl : e = e' := Except.error.inj (hbuild.symm.trans he')
      rw [hrecord]
      exact ⟨before, path, after, rfl, hreads, hrefuses, rfl⟩

/-- The building of a program's graph ends, with no more sources than there are texts and the root. It asks for no text
twice, and it fails at the first text that cannot be had, in the order of the walk, which there is just one of. -/
theorem fails_fast (files : Table Path String) (rootPath : String) (root : Block) (natives : List NativeModule) :
    (∀ g, build rootPath root (.memory files) natives = .ok g → g.sourceCount ≤ 1 + files.size) ∧
      ∃ met, Walks (.memory files) natives ((Module.ofSource rootPath root).uses natives) [rootPath] met ∧
        (∀ other, Walks (.memory files) natives ((Module.ofSource rootPath root).uses natives) [rootPath] other →
          other = met) ∧
        GoesBy (.memory files) natives rootPath root met := by
  refine ⟨fun g hg => Nat.add_comm _ 1 ▸ (growing_of_build hg).sourceCount_le, ?_⟩
  obtain ⟨met, hmet⟩ : ∃ met,
      Walks (.memory files) natives ((Module.ofSource rootPath root).uses natives) [rootPath] met := by
    refine exists_walks (fun use huse => ?_) List.nodup_nil fun path hpath => nomatch hpath
    obtain ⟨path, _, rfl⟩ := List.mem_map.1 huse
    exact ⟨_, path, rfl⟩
  exact ⟨met, hmet, fun other hother => hother.unique hmet, goesBy_of_walks hmet⟩

/-- the error and the requests of the building for a text, where there is one other text -/
def failureOf (source : String) (files : Table Path String) : Option (GraphError × List String) :=
  (parse source).toOption.bind fun body =>
    match recordBuild "main" body (.memory files) [] with
    | .ok _ _ => none
    | .error e asked => some (e, asked)

theorem recordBuild_of_failureOf {source : String} {files : Table Path String} {e : GraphError} {asked : List String}
    (h : failureOf source files = some (e, asked)) :
    ∃ body, parse source = .ok body ∧ recordBuild "main" body (.memory files) [] = .error e asked := by
  unfold failureOf at h
  cases hparse : parse source with
  | error flaw =>
    rw [hparse] at h
    cases h
  | ok body =>
    rw [hparse] at h
    change (match recordBuild "main" body (.memory files) [] with
      | .ok _ _ => none
      | .error e asked => some (e, asked)) = some (e, asked) at h
    refine ⟨body, rfl, ?_⟩
    cases hrecord : recordBuild "main" body (.memory files) [] with
    | ok g asked => simp [hrecord] at h
    | error e' asked' => simpa [hrecord] using h

/-- of two texts that are not there, the one that the root imports comes before the one that its first import does -/
theorem fails_fast_missing : ∃ body after, parse "use \"./a\"; use \"./b\";" = .ok body ∧
    build "main" body (.memory (Loader.insert .empty "a" "use \"./c\"; use \"./main\";")) [] =
      .error (.unreadable "b" "no module at b") ∧
    Walks (.memory (Loader.insert .empty "a" "use \"./c\"; use \"./main\";")) []
      ((Module.ofSource "main" body).uses []) ["main"] ("a" :: "b" :: after) := by
  obtain ⟨body, hparse, hrecord⟩ := @recordBuild_of_failureOf "use \"./a\"; use \"./b\";"
    (Loader.insert .empty "a" "use \"./c\"; use \"./main\";") (.unreadable "b" "no module at b") ["a", "b"]
    (by decide +kernel)
  obtain ⟨_, met, hwalk, _, hgoes⟩ :=
    fails_fast (Loader.insert .empty "a" "use \"./c\"; use \"./main\";") "main" body []
  have hbuild := hgoes.recorded
  rw [hrecord] at hbuild
  obtain ⟨before, path, after, rfl, _, _, hasked⟩ := hgoes.fails _ hbuild.symm
  rw [hrecord] at hasked
  obtain ⟨rfl, rfl⟩ : before = ["a"] ∧ path = "b" := by
    have hsplit : ["a"] ++ ["b"] = before ++ [path] := hasked
    obtain ⟨hbefore, hpath⟩ := List.append_inj' hsplit rfl
    exact ⟨hbefore.symm, (List.singleton_inj.1 hpath).symm⟩
  exact ⟨body, after, hparse, hbuild.symm, hwalk⟩

end TypedScript.Graph
