/-
The order of a graph's modules. A walk that ends without a ring leaves every node it comes to behind all children of the
node, once, and never leaves a node that it is in the middle of.

- `Graph.visit_walk`: what a walk from a node adds to the nodes left before.
- `Graph.closed_of_ordered`, `Graph.nodup_of_ordered`, `Graph.ordered_within`: the order of a graph.
-/
import TypedScript.Linking.Order

namespace TypedScript.Graph

variable {g : Graph} {path done done' done'' order : List Nat} {node : Nat}

/-- every node stands behind its children -/
def Closed (g : Graph) (order : List Nat) : Prop :=
  ∀ before node after, order = before ++ node :: after → ∀ child ∈ g.childNodes node, child ∈ before

theorem closed_nil : g.Closed [] := fun before _ _ h => absurd h.symm (by simp)

theorem Closed.append (h : g.Closed order) (hchildren : ∀ child ∈ g.childNodes node, child ∈ order) :
    g.Closed (order ++ [node]) := by
  intro before other after heq child hchild
  rcases List.eq_nil_or_concat after with rfl | ⟨after, last, rfl⟩
  · obtain ⟨rfl, hlast⟩ := List.append_inj' heq rfl
    cases hlast
    exact hchildren child hchild
  · have heq : order ++ [node] = (before ++ other :: after) ++ [last] := by
      simpa using heq
    obtain ⟨horder, _⟩ := List.append_inj' heq rfl
    exact h before other after horder child hchild

/-- what a walk adds to the nodes that were left before, where `path` holds the nodes it is in the middle of -/
structure Walk (g : Graph) (path done done' : List Nat) : Prop where
  grows : done <+: done'
  closed : g.Closed done → g.Closed done'
  nodup : done.Nodup → done'.Nodup
  kept : ∀ x ∈ path, x ∉ done → x ∉ done'

theorem Walk.refl (g : Graph) (path done : List Nat) : Walk g path done done :=
  ⟨List.prefix_refl _, id, id, fun _ _ h => h⟩

theorem Walk.trans (h : Walk g path done done') (h' : Walk g path done' done'') : Walk g path done done'' :=
  ⟨h.grows.trans h'.grows, fun hc => h'.closed (h.closed hc), fun hn => h'.nodup (h.nodup hn),
    fun x hx hd => h'.kept x hx (h.kept x hx hd)⟩

/-- walks from several nodes, one after the other -/
theorem walk_foldlM {walk : List Nat → Nat → Except (List Nat) (List Nat)}
    (hwalk : ∀ child done done', walk done child = .ok done' → Walk g path done done' ∧ child ∈ done')
    {children : List Nat} (h : children.foldlM walk done = .ok done') :
    Walk g path done done' ∧ ∀ child ∈ children, child ∈ done' := by
  induction children generalizing done with
  | nil =>
    cases h
    exact ⟨.refl _ _ _, fun _ h => nomatch h⟩
  | cons child children ih =>
    rw [List.foldlM_cons] at h
    cases hfirst : walk done child with
    | error ring => rw [hfirst] at h; cases h
    | ok after =>
      rw [hfirst] at h
      obtain ⟨hw, hmem⟩ := hwalk child done after hfirst
      obtain ⟨hrest, hall⟩ := ih h
      refine ⟨hw.trans hrest, fun x hx => ?_⟩
      rcases List.mem_cons.1 hx with rfl | hx
      · exact hrest.grows.subset hmem
      · exact hall x hx

/-- a walk that ends without a ring leaves its node -/
theorem visit_walk {depth : Nat} (h : g.visit depth path node done = .ok done') :
    Walk g path done done' ∧ node ∈ done' := by
  induction depth generalizing path node done done' with
  | zero => cases h
  | succ depth ih =>
    unfold visit at h
    split at h
    · next hdone => cases h; exact ⟨.refl _ _ _, hdone⟩
    split at h
    · cases h
    next hnew hoff =>
    cases hfold : (g.childNodes node).foldlM (fun done child => g.visit depth (node :: path) child done) done with
    | error ring => rw [hfold] at h; cases h
    | ok after =>
      rw [hfold] at h
      cases h
      obtain ⟨hwalk, hchildren⟩ := walk_foldlM (fun child done done' h => ih h) hfold
      refine ⟨⟨hwalk.grows.trans (List.prefix_append _ _), fun hc => (hwalk.closed hc).append hchildren, fun hn => ?_,
        fun x hx hd => ?_⟩, List.mem_append_right _ List.mem_cons_self⟩
      · refine List.nodup_append.2 ⟨hwalk.nodup hn, by simp, fun x hx y hy heq => ?_⟩
        rw [List.mem_singleton] at hy
        subst heq hy
        exact hwalk.kept x List.mem_cons_self hnew hx
      · rw [List.mem_append, List.mem_singleton, not_or]
        exact ⟨hwalk.kept x (List.mem_cons_of_mem _ hx) hd, fun heq => hoff (heq ▸ hx)⟩

/-- what each step of a fold keeps is true in the end -/
theorem foldlM_keeps {α β ε : Type} {P : β → Prop} {f : β → α → Except ε β} {items : List α}
    (hstep : ∀ item ∈ items, ∀ b b', P b → f b item = .ok b' → P b') {b b' : β} (hb : P b)
    (h : items.foldlM f b = .ok b') : P b' := by
  induction items generalizing b with
  | nil => cases h; exact hb
  | cons item items ih =>
    rw [List.foldlM_cons] at h
    cases hfirst : f b item with
    | error e => rw [hfirst] at h; cases h
    | ok next =>
      rw [hfirst] at h
      exact ih (fun x hx => hstep x (List.mem_cons_of_mem _ hx)) (hstep item List.mem_cons_self b next hb hfirst) h

/-- a walk only comes to nodes that its own node leads to -/
theorem visit_within {P : Nat → Prop} (hP : ∀ x, P x → ∀ child ∈ g.childNodes x, P child) {depth : Nat} (hnode : P node)
    (hdone : ∀ x ∈ done, P x) (h : g.visit depth path node done = .ok done') : ∀ x ∈ done', P x := by
  induction depth generalizing path node done done' with
  | zero => cases h
  | succ depth ih =>
    unfold visit at h
    split at h
    · cases h; exact hdone
    split at h
    · cases h
    cases hfold : (g.childNodes node).foldlM (fun done child => g.visit depth (node :: path) child done) done with
    | error ring => rw [hfold] at h; cases h
    | ok after =>
      rw [hfold] at h
      cases h
      have hafter := foldlM_keeps (P := fun done => ∀ x ∈ done, P x)
        (fun child hchild done done' hdone h => ih (hP node hnode child hchild) hdone h) hdone hfold
      intro x hx
      rcases List.mem_append.1 hx with hx | hx
      · exact hafter x hx
      · rw [List.mem_singleton] at hx
        exact hx ▸ hnode

/-! ## The order of a graph -/

theorem closed_of_ordered (h : g.ordered = .ok order) : g.Closed order := (visit_walk h).1.closed closed_nil

theorem root_mem_ordered (h : g.ordered = .ok order) : g.root ∈ order := (visit_walk h).2

theorem last_of_ordered (h : g.ordered = .ok order) : order.getLast? = some g.root := by
  unfold ordered visit at h
  simp only [List.not_mem_nil, if_false] at h
  cases hfold : (g.childNodes g.root).foldlM (fun done child => g.visit g.nodes.size [g.root] child done) [] with
  | error ring => rw [hfold] at h; cases h
  | ok after =>
    rw [hfold] at h
    cases h
    simp

theorem nodup_of_ordered (h : g.ordered = .ok order) : order.Nodup := (visit_walk h).1.nodup List.nodup_nil

/-- the order holds only what the root needs -/
theorem ordered_within {P : Nat → Prop} (hP : ∀ x, P x → ∀ child ∈ g.childNodes x, P child) (hroot : P g.root)
    (h : g.ordered = .ok order) : ∀ x ∈ order, P x := visit_within hP hroot (fun _ h => absurd h (by simp)) h

/-- there is an order where no ring is found -/
theorem ordered_of_detectCycles (h : g.detectCycles = .ok ()) : ∃ order, g.ordered = .ok order := by
  unfold detectCycles at h
  cases horder : g.ordered with
  | ok order => exact ⟨order, rfl⟩
  | error ring => rw [horder] at h; cases h

theorem topologicalOrder_eq (h : g.ordered = .ok order) : g.topologicalOrder = .ok order := by
  unfold topologicalOrder
  rw [h]

end TypedScript.Graph
