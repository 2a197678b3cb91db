/-
Rings and orders. The walk of a graph either leaves every node behind the nodes it imports, or it comes back to a node
it is in the middle of; then the nodes it is in the middle of, from that node on, import each other in a ring.

- `Graph.visit_ring`: what a walk reports is a ring.
- `Graph.detectCycles_iff`: a graph is found to have no ring exactly when no node leads back to itself.
- `Graph.ordered_isOrder`: an order that is found has every node once, behind those it imports, and ends with the root.
-/
import Mathlib.Data.List.Chain
import Mathlib.Data.List.Nodup
import Mathlib.Data.List.Perm.Subperm
import TypedScript.Proofs.Linking.Order
import TypedScript.Proofs.Linking.Reach

namespace TypedScript.Graph

variable {natives : List NativeModule} {g : Graph} {path done order ring : List Nat} {node i j : Nat}

/-- nodes that import each other in a ring, each of them once, and the first one again at the end -/
structure Ring (g : Graph) (first : Nat) (others : List Nat) : Prop where
  edges : (first :: others ++ [first]).IsChain g.Imports
  once : (first :: others).Nodup
  nodes : ∀ i ∈ first :: others, i < g.nodes.size

/-- every node once, behind those it imports, the root last -/
structure IsOrder (g : Graph) (order : List Nat) : Prop where
  all : order.Perm (List.range g.nodes.size)
  behind : ∀ i j, g.Imports i j → order.idxOf j < order.idxOf i
  last : order.getLast? = some g.root

/-- no node leads back to itself -/
def Acyclic (g : Graph) : Prop := ∀ i, ¬ Relation.TransGen g.Imports i i

theorem lt_of_imports (h : g.Imports i j) : i < g.nodes.size := by
  obtain ⟨children, hchildren, _⟩ := imports_iff.1 h
  obtain ⟨node, hnode, _⟩ := Option.map_eq_some_iff.1 hchildren
  exact lt_of_node? hnode

theorem Led.lt_of_imports (h : g.Led natives) (hedge : g.Imports i j) : j < g.nodes.size := by
  obtain ⟨children, hchildren, path, hmem⟩ := imports_iff.1 hedge
  obtain ⟨node, hnode, rfl⟩ := Option.map_eq_some_iff.1 hchildren
  obtain ⟨target, htarget, _⟩ := h.index _ _ (h.edges i node hnode (path, j) hmem)
  exact lt_of_node? htarget

/-! ## What a walk reports -/

/-- the nodes of a walk's path from one of them on, the innermost first, make a ring when the walk comes back to it -/
theorem ring_of_path (hnodup : path.Nodup) (hin : ∀ x ∈ path, x < g.nodes.size)
    (hchain : (node :: path).IsChain fun a b => g.Imports b a) (hnode : node ∈ path) :
    g.Ring node (path.takeWhile (· ≠ node)).reverse := by
  obtain ⟨inner, outer, hsplit, hnot⟩ := List.eq_append_cons_of_mem hnode
  have htake : path.takeWhile (· ≠ node) = inner := by
    rw [hsplit, List.takeWhile_append_of_pos fun x hx => by simpa using ne_of_mem_of_not_mem hx hnot]
    simp
  rw [htake]
  rw [hsplit] at hnodup hchain hin
  refine ⟨?_, ?_, fun i hi => ?_⟩
  · have hback : ((node :: inner ++ [node]) ++ outer).IsChain fun a b => g.Imports b a := by simpa using hchain
    simpa using List.isChain_reverse.2 hback.left_of_append
  · have hinner := (List.nodup_append.1 hnodup).1
    simpa using ⟨hnot, hinner⟩
  · rcases List.mem_cons.1 hi with rfl | hi
    · exact hin i (by simp)
    · exact hin i (List.mem_append_left _ (List.mem_reverse.1 hi))

/-- no path is longer than the graph -/
theorem length_le_of_nodup (hnodup : path.Nodup) (hin : ∀ x ∈ path, x < g.nodes.size) : path.length ≤ g.nodes.size := by
  have hsub : path ⊆ List.range g.nodes.size := fun x hx => List.mem_range.2 (hin x hx)
  simpa using (List.subperm_of_subset hnodup hsub).length_le

/-- where a fold ends with an error, one of its steps does -/
theorem error_of_foldlM {α β ε : Type} {f : β → α → Except ε β} {items : List α} {b : β} {e : ε}
    (h : items.foldlM f b = .error e) : ∃ item ∈ items, ∃ b', f b' item = .error e := by
  induction items generalizing b with
  | nil => cases h
  | cons item items ih =>
    rw [List.foldlM_cons] at h
    cases hfirst : f b item with
    | error e' =>
      rw [hfirst] at h
      cases h
      exact ⟨item, List.mem_cons_self, b, hfirst⟩
    | ok next =>
      rw [hfirst] at h
      obtain ⟨found, hmem, hfound⟩ := ih h
      exact ⟨found, List.mem_cons_of_mem _ hmem, hfound⟩

/-- what a walk reports is a ring -/
theorem visit_ring {depth : Nat} (hdepth : g.nodes.size < depth + path.length) (hnodup : path.Nodup)
    (hin : ∀ x ∈ path, x < g.nodes.size) (hchain : (node :: path).IsChain fun a b => g.Imports b a)
    (h : g.visit depth path node done = .error ring) :
    ∃ first others, ring = first :: others ++ [first] ∧ g.Ring first others := by
  induction depth generalizing path node done with
  | zero =>
    have hlength := length_le_of_nodup hnodup hin
    omega
  | succ depth ih =>
    unfold visit at h
    by_cases hdone : node ∈ done
    · rw [if_pos hdone] at h
      simp at h
    rw [if_neg hdone] at h
    by_cases hpath : node ∈ path
    · rw [if_pos hpath] at h
      exact ⟨node, _, (Except.error.inj h).symm, ring_of_path hnodup hin hchain hpath⟩
    rw [if_neg hpath] at h
    cases hfold : (g.childNodes node).foldlM (fun done child => g.visit depth (node :: path) child done) done with
    | ok after => rw [hfold] at h; cases h
    | error ring' =>
      rw [hfold] at h
      cases h
      obtain ⟨child, hchild, done', hvisit⟩ := error_of_foldlM hfold
      refine ih ?_ (List.nodup_cons.2 ⟨hpath, hnodup⟩) (fun x hx => ?_) ?_ hvisit
      · rw [List.length_cons]
        omega
      · rcases List.mem_cons.1 hx with rfl | hx
        · exact lt_of_imports hchild
        · exact hin x hx
      · exact List.isChain_cons_cons.2 ⟨hchild, hchain⟩

theorem ring_of_ordered (h : g.ordered = .error ring) :
    ∃ first others, ring = first :: others ++ [first] ∧ g.Ring first others :=
  visit_ring (by simp) List.nodup_nil (by simp) (List.isChain_singleton _) h

/-! ## Rings lead back -/

theorem transGen_of_isChain {R : Nat → Nat → Prop} {first last : Nat} {between : List Nat}
    (h : (first :: between ++ [last]).IsChain R) : Relation.TransGen R first last := by
  induction between generalizing first with
  | nil =>
    have hstep : R first last := by simpa using h
    exact .single hstep
  | cons next between ih =>
    obtain ⟨hstep, hrest⟩ := List.isChain_cons_cons.1 (by simpa using h)
    exact .head hstep (ih (by simpa using hrest))

theorem Ring.leads_back {first : Nat} {others : List Nat} (h : g.Ring first others) :
    Relation.TransGen g.Imports first first := transGen_of_isChain h.edges

/-- the keys on a ring are different -/
theorem Ring.keys {first : Nat} {others : List Nat} (h : g.Ring first others) (hled : g.Led natives) :
    ((first :: others).map g.key).Nodup := by
  refine (List.nodup_map_iff_inj_on h.once).2 fun i hi j hj heq => ?_
  have hnode (k : Nat) (hk : k ∈ first :: others) : g.index.find? (g.key k) = some k := by
    have hlt := h.nodes k hk
    have hfound : g.node? k = some g.nodes[k] := Array.getElem?_eq_getElem hlt
    have hkeyed := hled.keyed k _ hfound
    unfold key
    rw [hfound]
    exact hkeyed
  have hsame := hnode i hi
  rw [heq, hnode j hj, Option.some.injEq] at hsame
  exact hsame.symm

/-! ## What an order has -/

theorem idxOf_lt (hclosed : g.Closed order) (hnodup : order.Nodup) (hi : i ∈ order) (hedge : g.Imports i j) :
    order.idxOf j < order.idxOf i := by
  obtain ⟨before, after, rfl, hnot⟩ := List.eq_append_cons_of_mem hi
  have hj : j ∈ before := hclosed before i after rfl j hedge
  rw [List.idxOf_append_of_mem hj, List.idxOf_append_of_notMem hnot]
  have := List.idxOf_lt_length_iff.2 hj
  omega

theorem Closed.mem (hclosed : g.Closed order) (hi : i ∈ order) (hedge : g.Imports i j) : j ∈ order := by
  obtain ⟨before, after, rfl, _⟩ := List.eq_append_cons_of_mem hi
  exact List.mem_append_left _ (hclosed before i after rfl j hedge)

/-- an order that is found has every node once, behind those it imports, and the root last -/
theorem ordered_isOrder (hled : g.Led natives) (hwhole : g.Whole) (h : g.ordered = .ok order) : g.IsOrder order := by
  have hclosed := closed_of_ordered h
  have hnodup := nodup_of_ordered h
  have hmem : ∀ i, i < g.nodes.size → i ∈ order := by
    intro i hi
    have hneeded := hwhole.needed i hi
    clear hi
    induction hneeded with
    | refl => exact root_mem_ordered h
    | tail _ hedge ih => exact hclosed.mem ih hedge
  have hlt : ∀ i ∈ order, i < g.nodes.size :=
    ordered_within (fun _ _ _ hedge => hled.lt_of_imports hedge) hwhole.root h
  refine ⟨?_, fun i j hedge => idxOf_lt hclosed hnodup (hmem i (lt_of_imports hedge)) hedge, last_of_ordered h⟩
  refine (List.perm_ext_iff_of_nodup hnodup List.nodup_range).2 fun i => ?_
  rw [List.mem_range]
  exact ⟨hlt i, hmem i⟩

theorem IsOrder.acyclic (h : g.IsOrder order) : g.Acyclic := by
  have hdown (i j : Nat) (hpath : Relation.TransGen g.Imports i j) : order.idxOf j < order.idxOf i := by
    induction hpath with
    | single hedge => exact h.behind _ _ hedge
    | tail _ hedge ih => exact (h.behind _ _ hedge).trans ih
  exact fun i hi => Nat.lt_irrefl _ (hdown i i hi)

/-- an order is found exactly where no node leads back to itself -/
theorem exists_ordered_iff (hled : g.Led natives) (hwhole : g.Whole) :
    (∃ order, g.ordered = .ok order) ↔ g.Acyclic := by
  constructor
  · rintro ⟨order, horder⟩
    exact (ordered_isOrder hled hwhole horder).acyclic
  · intro hacyclic
    cases horder : g.ordered with
    | ok order => exact ⟨order, rfl⟩
    | error ring =>
      obtain ⟨first, others, _, hring⟩ := ring_of_ordered horder
      exact absurd hring.leads_back (hacyclic first)

theorem detectCycles_iff (hled : g.Led natives) (hwhole : g.Whole) : g.detectCycles = .ok () ↔ g.Acyclic := by
  rw [← exists_ordered_iff hled hwhole]
  unfold detectCycles
  cases g.ordered <;> simp

/-- the keys of a ring are reported where there is one -/
theorem detectCycles_error (hled : g.Led natives) {e : GraphError} (h : g.detectCycles = .error e) :
    ∃ first others, g.Ring first others ∧ ((first :: others).map g.key).Nodup ∧
      e = .cycle (" <- ".intercalate ((first :: others ++ [first]).map g.key)) := by
  unfold detectCycles at h
  cases horder : g.ordered with
  | ok order => rw [horder] at h; cases h
  | error ring =>
    rw [horder] at h
    obtain ⟨first, others, rfl, hring⟩ := ring_of_ordered horder
    exact ⟨first, others, hring, hring.keys hled, (Except.error.inj h).symm⟩

end TypedScript.Graph
