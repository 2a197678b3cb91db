/-
Walks that mark the nodes of a graph. A graph that is asked for rings and for orders again and again carries the marks
of its last walk, which ended where it found a ring. Every walk takes the marks away first, and then a mark says what a
walk without marks reads off the nodes it is in the middle of and the nodes it has left. So neither the calls before nor
the marks that they leave change an answer.

- `Marked.detectCycles_eq`, `Marked.topologicalOrder_eq`: the answers are those of the graph.
- `Marked.finds_rings`: what the answers are after any calls, for a graph that is built.
-/
import Mathlib.Logic.Function.Basic
import TypedScript.Proofs.Linking.Cycles
import TypedScript.Proofs.Linking.Link

namespace TypedScript

/-- how far a walk has come with a node -/
inductive Mark
  | unvisited
  | inProgress
  | done
deriving DecidableEq, Inhabited

/-- a graph with marks on its nodes -/
structure Marked where
  graph : Graph
  marks : Nat → Mark

namespace Marked

/-- the marks of a walk, and the nodes it has left in the order in which it left them -/
structure Walked where
  marks : Nat → Mark
  order : List Nat

/-- the walk from a node, where `path` holds the nodes it is in the middle of, the innermost first. A ring ends it, and
the marks stay as they are then. -/
def walk (g : Graph) : (depth : Nat) → (path : List Nat) → (node : Nat) → EStateM (List Nat) Walked Unit
  | 0, _, node => throw [node, node]
  | depth + 1, path, node => do
    match (← get).marks node with
    | .done => return ()
    | .inProgress => throw (node :: (path.takeWhile (· ≠ node)).reverse ++ [node])
    | .unvisited =>
      modify fun w => { w with marks := Function.update w.marks node .inProgress }
      (g.childNodes node).forM (walk g depth (node :: path))
      modify fun w => ⟨Function.update w.marks node .done, w.order ++ [node]⟩

variable {g : Graph} {path : List Nat} {node : Nat} {w : Walked}

theorem walk_done {depth : Nat} (h : w.marks node = .done) : walk g (depth + 1) path node w = .ok () w := by
  unfold walk
  dsimp only [bind, EStateM.bind, get, getThe, MonadStateOf.get, EStateM.get]
  rw [h]
  rfl

theorem walk_inProgress {depth : Nat} (h : w.marks node = .inProgress) :
    walk g (depth + 1) path node w = .error (node :: (path.takeWhile (· ≠ node)).reverse ++ [node]) w := by
  unfold walk
  dsimp only [bind, EStateM.bind, get, getThe, MonadStateOf.get, EStateM.get]
  rw [h]
  rfl

theorem walk_unvisited {depth : Nat} (h : w.marks node = .unvisited) :
    walk g (depth + 1) path node w = EStateM.bind ((g.childNodes node).forM (walk g depth (node :: path)))
      (fun _ w => .ok () ⟨Function.update w.marks node .done, w.order ++ [node]⟩)
      { w with marks := Function.update w.marks node .inProgress } := by
  unfold walk
  dsimp only [bind, EStateM.bind, get, getThe, MonadStateOf.get, EStateM.get]
  rw [h]
  rfl

/-- take the marks away -/
def reset (s : Marked) : Marked := { s with marks := fun _ => .unvisited }

/-- a new walk from the root -/
def walked (s : Marked) : EStateM.Result (List Nat) Walked Unit :=
  walk s.graph (s.graph.nodes.size + 1) [] s.graph.root ⟨s.reset.marks, []⟩

def detectCycles (s : Marked) : Except GraphError Unit × Marked :=
  match s.walked with
  | .ok _ w => (.ok (), { s with marks := w.marks })
  | .error ring w => (.error (.cycle (" <- ".intercalate (ring.map s.graph.key))), { s with marks := w.marks })

def topologicalOrder (s : Marked) : Except InternalFault (List Nat) × Marked :=
  match s.walked with
  | .ok _ w => (.ok w.order, { s with marks := w.marks })
  | .error ring w =>
    (.error (.malformedGraph (s.graph.key (ring.getLast?.getD s.graph.root))), { s with marks := w.marks })

/-- what a graph can be asked for -/
inductive Call
  | cycles
  | order
deriving DecidableEq, Inhabited

/-- the graph after one call, whatever its answer is -/
def call (s : Marked) : Call → Marked
  | .cycles => s.detectCycles.2
  | .order => s.topologicalOrder.2

/-- the graph after calls, one after the other -/
def after (s : Marked) (calls : List Call) : Marked := calls.foldl call s

/-! ## What a mark says -/

/-- what marks say about the nodes that a walk is in the middle of and those it has left -/
def Agree (w : Walked) (path : List Nat) : Prop :=
  ∀ n, w.marks n = if n ∈ w.order then .done else if n ∈ path then .inProgress else .unvisited

theorem agree_reset (s : Marked) : Agree ⟨s.reset.marks, []⟩ [] := by
  intro n
  simp [reset]

/-- a walk comes to a node -/
theorem Agree.enter (h : Agree w path) (hnew : node ∉ w.order) :
    Agree { w with marks := Function.update w.marks node .inProgress } (node :: path) := by
  intro n
  by_cases hn : n = node
  · subst hn
    simp [hnew]
  · simp [hn, h n]

/-- a walk leaves a node -/
theorem Agree.leave (h : Agree w (node :: path)) (hoff : node ∉ path) :
    Agree ⟨Function.update w.marks node .done, w.order ++ [node]⟩ path := by
  intro n
  by_cases hn : n = node
  · subst hn
    simp
  · simp [hn, h n]

/-- what a walk with marks gives, and how its marks are then, where the walk without marks gives `found` -/
def Gives (r : EStateM.Result (List Nat) Walked Unit) (path : List Nat) : Except (List Nat) (List Nat) → Prop
  | .ok order => ∃ w, r = .ok () w ∧ w.order = order ∧ Agree w path
  | .error ring => ∃ w, r = .error ring w

theorem gives_forM (walk : Nat → EStateM (List Nat) Walked Unit) (visit : List Nat → Nat → Except (List Nat) (List Nat))
    (hwalk : ∀ child w, Agree w path → Gives (walk child w) path (visit w.order child)) (children : List Nat)
    (hw : Agree w path) : Gives (children.forM walk w) path (children.foldlM visit w.order) := by
  induction children generalizing w with
  | nil => exact ⟨w, rfl, rfl, hw⟩
  | cons child children ih =>
    have hfirst := hwalk child w hw
    have hforM : (child :: children).forM walk = (walk child >>= fun _ => children.forM walk) := rfl
    rw [List.foldlM_cons, hforM]
    cases hvisit : visit w.order child with
    | error ring =>
      rw [hvisit] at hfirst
      obtain ⟨w', hw'⟩ := hfirst
      refine ⟨w', ?_⟩
      change EStateM.bind (walk child) _ w = _
      simp [EStateM.bind, hw']
    | ok order =>
      rw [hvisit] at hfirst
      obtain ⟨w', hw', rfl, hagree⟩ := hfirst
      have hbind : (walk child >>= fun _ => children.forM walk) w = children.forM walk w' := by
        change EStateM.bind (walk child) _ w = _
        simp [EStateM.bind, hw']
      rw [hbind]
      exact ih hagree

/-- the walk with marks gives what the walk without marks gives -/
theorem gives_walk {depth : Nat} (hw : Agree w path) :
    Gives (walk g depth path node w) path (g.visit depth path node w.order) := by
  induction depth generalizing path node w with
  | zero => exact ⟨w, rfl⟩
  | succ depth ih =>
    have hmark := hw node
    unfold Graph.visit
    by_cases hdone : node ∈ w.order
    · rw [if_pos hdone] at hmark ⊢
      exact ⟨w, walk_done hmark, rfl, hw⟩
    rw [if_neg hdone] at hmark ⊢
    by_cases hpath : node ∈ path
    · rw [if_pos hpath] at hmark ⊢
      exact ⟨w, walk_inProgress hmark⟩
    rw [if_neg hpath] at hmark ⊢
    have hchildren :=
      gives_forM (walk g depth (node :: path)) (fun done child => g.visit depth (node :: path) child done)
      (fun child w hw => ih hw) (g.childNodes node) (hw.enter hdone)
    dsimp only at hchildren
    have hwalk := @walk_unvisited g path node w depth hmark
    cases hfold : (g.childNodes node).foldlM (fun done child => g.visit depth (node :: path) child done) w.order with
    | error ring =>
      rw [hfold] at hchildren
      obtain ⟨w', hw'⟩ := hchildren
      refine ⟨w', ?_⟩
      rw [hwalk]
      simp only [EStateM.bind, hw']
    | ok order =>
      rw [hfold] at hchildren
      obtain ⟨w', hw', rfl, hagree⟩ := hchildren
      refine ⟨_, ?_, rfl, hagree.leave hpath⟩
      rw [hwalk]
      simp only [EStateM.bind, hw']

/-! ## The answers -/

variable {s : Marked} {natives : List NativeModule} {loader : Loader} {rootPath : String} {root : Block}

theorem gives_walked (s : Marked) : Gives s.walked [] s.graph.ordered := gives_walk (agree_reset s)

theorem detectCycles_eq (s : Marked) : s.detectCycles.1 = s.graph.detectCycles := by
  have hgives := gives_walked s
  unfold detectCycles Graph.detectCycles
  cases hordered : s.graph.ordered with
  | ok order =>
    rw [hordered] at hgives
    obtain ⟨w, hw, _⟩ := hgives
    rw [hw]
  | error ring =>
    rw [hordered] at hgives
    obtain ⟨w, hw⟩ := hgives
    rw [hw]

theorem topologicalOrder_eq (s : Marked) : s.topologicalOrder.1 = s.graph.topologicalOrder := by
  have hgives := gives_walked s
  unfold topologicalOrder Graph.topologicalOrder
  cases hordered : s.graph.ordered with
  | ok order =>
    rw [hordered] at hgives
    obtain ⟨w, hw, rfl, _⟩ := hgives
    rw [hw]
  | error ring =>
    rw [hordered] at hgives
    obtain ⟨w, hw⟩ := hgives
    rw [hw]

theorem graph_call (s : Marked) (c : Call) : (s.call c).graph = s.graph := by
  cases c with
  | cycles =>
    simp only [call, detectCycles]
    split <;> rfl
  | order =>
    simp only [call, topologicalOrder]
    split <;> rfl

theorem graph_after (s : Marked) (calls : List Call) : (s.after calls).graph = s.graph := by
  induction calls generalizing s with
  | nil => rfl
  | cons c calls ih => exact (ih (s.call c)).trans (graph_call s c)

/-- What a graph that is built answers after any calls: it has no ring exactly where no node leads back to itself, and
then, and only then, there is an order. The order has every node once, behind those it imports, and ends with the root.
Where there is a ring, its keys are reported along its imports, each once but for the first one, which is the last one
again. A graph without a ring has a program, and each link of a module there leads to an earlier module. -/
theorem finds_rings {g : Graph} (h : Graph.build rootPath root loader natives = .ok g) (marks : Nat → Mark)
    (calls : List Call) :
    let s := after ⟨g, marks⟩ calls
    (s.detectCycles.1 = .ok () ↔ g.Acyclic) ∧
    ((∃ order, s.topologicalOrder.1 = .ok order) ↔ s.detectCycles.1 = .ok ()) ∧
    (∀ order, s.topologicalOrder.1 = .ok order → g.IsOrder order) ∧
    (∀ e, s.detectCycles.1 = .error e → ∃ first others, g.Ring first others ∧ ((first :: others).map g.key).Nodup ∧
      e = .cycle (" <- ".intercalate ((first :: others ++ [first]).map g.key))) ∧
    (s.detectCycles.1 = .ok () →
      ∃ p order, link g = .ok p ∧ s.topologicalOrder.1 = .ok order ∧ p.Follows g order) := by
  intro s
  have hled := Graph.led_of_build h
  have hwhole := Graph.whole_of_build h
  have hgraph : s.graph = g := graph_after _ calls
  have horder {order : List Nat} : g.topologicalOrder = .ok order ↔ g.ordered = .ok order := by
    unfold Graph.topologicalOrder
    cases g.ordered <;> simp
  rw [detectCycles_eq, topologicalOrder_eq, hgraph]
  simp only [horder]
  refine ⟨Graph.detectCycles_iff hled hwhole, ?_, fun order => Graph.ordered_isOrder hled hwhole,
    fun e => Graph.detectCycles_error hled, fun hcycles => ?_⟩
  · rw [Graph.exists_ordered_iff hled hwhole, Graph.detectCycles_iff hled hwhole]
  · have hchildren (i : Nat) (node : GraphNode) (hi : g.node? i = some node) (c : String × Nat)
        (hc : c ∈ node.children) :
        c.2 < g.nodes.size := hled.lt_of_imports (Program.mem_childNodes hi hc)
    obtain ⟨p, hp⟩ := exists_link hwhole.root hchildren hcycles
    obtain ⟨order, hordered, hfollows⟩ := linked_follows hp
    exact ⟨p, order, hp, hordered, hfollows⟩

/-- a graph without a ring, asked for an order and for rings before -/
theorem finds_rings_native : ∃ body g,
    Graph.build "main" body (.memory (Loader.insert .empty "lib" "")) [⟨"lib", []⟩] = .ok g ∧ g.Acyclic ∧
      ∃ p order, link g = .ok p ∧ g.IsOrder order ∧ p.Follows g order := by
  have hfound : (Graph.buildOf "use \"lib\";").map
      (fun g => (after ⟨g, fun _ => .inProgress⟩ [.order, .cycles]).detectCycles.1) = some (.ok ()) := by decide +kernel
  obtain ⟨body, g, hbuild, hcycles⟩ := Graph.build_of_buildOf hfound
  obtain ⟨hacyclic, _, horder, _, hlink⟩ := finds_rings hbuild (fun _ => .inProgress) [.order, .cycles]
  obtain ⟨p, order, hp, hanswer, hfollows⟩ := hlink hcycles
  exact ⟨body, g, hbuild, hacyclic.1 hcycles, p, order, hp, horder order hanswer, hfollows⟩

/-- a text that imports itself is a ring, also when it is asked for again -/
example : (Graph.buildOf "use \"./main\";").map
    (fun g => (after ⟨g, fun _ => .done⟩ [.cycles, .order]).detectCycles.1) =
      some (.error (.cycle "main <- main")) := by
  decide +kernel

end Marked

end TypedScript
