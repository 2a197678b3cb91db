/-
Chains of frames. A frame and those around it form a chain (`Store.chain`), in which cells are looked for from the
inside outwards. Frames mirror scopes if, level by level, each holds a cell for every variable of its scope and for
nothing else (`Store.Mirrors`). While a body runs, only its own frame may get new cells (`Store.Keeps`).

- `Store.Keeps.mirrors_chain`: a chain that mirrors scopes goes on doing so, if the frame that changes came later.
- `Store.Mirrors.holder`: in frames that mirror the scopes around a place, a variable's cell is found at the level of
  its scope.
-/
import TypedScript.Proofs.Bound.Scoped
import TypedScript.Proofs.Machine.Grows

namespace TypedScript

namespace Store

variable {φ : Type} {s s' s'' : Store φ} {frame i parent : FrameId}

/-! ## Chains -/

/-- a frame and those around it, the innermost first -/
def chain (s : Store φ) (frame : FrameId) : List FrameId :=
  frame :: match h : s.parent? frame with
    | some parent =>
      have := parent?_lt h
      s.chain parent
    | none => []
termination_by frame

theorem chain_of_parent? (h : s.parent? frame = some parent) : s.chain frame = frame :: s.chain parent := by
  rw [chain]
  split
  · next other heq =>
    rw [h] at heq
    cases heq
    rfl
  · next heq => rw [h] at heq; cases heq

theorem chain_of_top (h : s.parent? frame = none) : s.chain frame = [frame] := by
  rw [chain]
  split
  · next heq => rw [h] at heq; cases heq
  · rfl

theorem chain_eq_cons (s : Store φ) (frame : FrameId) : s.chain frame = frame :: (s.chain frame).tail := by
  rw [chain]
  rfl

/-- a chain is given by the parents of the frames up to its first one -/
theorem chain_congr (h : ∀ i ≤ frame, s'.parent? i = s.parent? i) : s'.chain frame = s.chain frame := by
  induction frame using Nat.strongRecOn with
  | ind frame ih =>
    have hsame := h frame (Nat.le_refl _)
    cases hparent : s.parent? frame with
    | none => rw [chain_of_top hparent, chain_of_top (hsame.trans hparent)]
    | some parent =>
      have hlt := parent?_lt hparent
      have hparents := ih parent hlt fun i hi => h i (Nat.le_trans hi (Nat.le_of_lt hlt))
      rw [chain_of_parent? hparent, chain_of_parent? (hsame.trans hparent), hparents]

theorem le_of_mem_chain (h : i ∈ s.chain frame) : i ≤ frame := by
  induction frame using Nat.strongRecOn with
  | ind frame ih =>
    cases hparent : s.parent? frame with
    | none =>
      rw [chain_of_top hparent, List.mem_singleton] at h
      exact Nat.le_of_eq h
    | some parent =>
      rw [chain_of_parent? hparent, List.mem_cons] at h
      rcases h with rfl | h
      · exact Nat.le_refl _
      · have hlt := parent?_lt hparent
        exact Nat.le_trans (ih parent hlt h) (Nat.le_of_lt hlt)

/-- the frames around a frame were made before it -/
theorem lt_of_mem_tail_chain (h : i ∈ (s.chain frame).tail) : i < frame := by
  cases hparent : s.parent? frame with
  | none => rw [chain_of_top hparent] at h; cases h
  | some parent =>
    rw [chain_of_parent? hparent] at h
    exact Nat.lt_of_le_of_lt (le_of_mem_chain h) (parent?_lt hparent)

/-- a cell is found in the first frame of the chain that has it -/
theorem holder?_eq_find? (s : Store φ) (frame : FrameId) (cell : Nat) :
    s.holder? frame cell = (s.chain frame).find? fun i => (s.slot? i cell).isSome := by
  induction frame using Nat.strongRecOn with
  | ind frame ih =>
    rw [holder?_eq]
    cases hparent : s.parent? frame with
    | none =>
      rw [chain_of_top hparent, List.find?_cons]
      cases (s.slot? frame cell).isSome <;> rfl
    | some parent =>
      rw [chain_of_parent? hparent, List.find?_cons, Option.bind_some, ih parent (parent?_lt hparent)]
      cases (s.slot? frame cell).isSome <;> rfl

/-! ## Cells of a frame -/

/-- a frame that was made has cells for these variables and no others -/
structure Holds (s : Store φ) (frame : FrameId) (cells : List Cell) : Prop where
  made : frame < s.frames.size
  slots : ∀ j, (s.slot? frame j).isSome = true ↔ ∃ cell ∈ cells, cell.id = j

/-- frames hold the variables of scopes, level by level -/
def Mirrors (s : Store φ) (a : Arena) : List FrameId → List ScopeId → Prop :=
  List.Forall₂ fun frame x => s.Holds frame (a.cells x)

theorem Mirrors.made {a : Arena} {scopes : List ScopeId} (h : s.Mirrors a (s.chain frame) scopes) :
    frame < s.frames.size := by
  rw [chain_eq_cons] at h
  cases h with
  | cons hhead _ => exact hhead.made

/-- one cell more is made in a frame -/
theorem Holds.reserve {cells : List Cell} (h : s.Holds frame cells) (cell : Cell) :
    (s.reserve frame cell).Holds frame (cells ++ [cell]) := by
  refine ⟨by rw [Store.reserve, size_put]; exact h.made, fun j => ?_⟩
  rw [Store.reserve, slot?_put_eq h.made]
  by_cases hj : cell.id = j
  · rw [if_pos ⟨rfl, hj⟩]
    exact ⟨fun _ => ⟨cell, List.mem_append_right _ (List.mem_singleton_self cell), hj⟩, fun _ => rfl⟩
  · rw [if_neg fun h => hj h.2, h.slots]
    simp only [List.mem_append, List.mem_singleton, or_and_right, exists_or, exists_eq_left, hj, or_false]

/-- a new frame holds the cells that it is filled with -/
theorem holds_newFrame (s : Store φ) {fr : Frame φ} (hcells : fr.cells = .empty)
    (slots : List (Cell × Option (Value φ))) :
    ((s.add fr).2.fill s.frames.size slots).Holds s.frames.size (slots.map Prod.fst) := by
  refine ⟨?_, fun j => ⟨fun h => ?_, ?_⟩⟩
  · rw [size_fill]
    simp [add]
  · obtain ⟨content, hcontent⟩ := Option.isSome_iff_exists.1 h
    rcases slot?_newFrame hcells hcontent with ⟨_, cell, hmem, hcell⟩ | hold
    · exact ⟨cell, List.mem_map.2 ⟨_, hmem, rfl⟩, hcell⟩
    · exact absurd (lt_of_slot? hold) (Nat.lt_irrefl _)
  · rintro ⟨cell, hmem, hcell⟩
    obtain ⟨slot, hslot, rfl⟩ := List.mem_map.1 hmem
    exact isSome_newFrame ⟨slot, hslot, hcell⟩

/-! ## What a body keeps -/

/-- a store later on, while only one of its frames may get new cells -/
structure Keeps (frame : FrameId) (s s' : Store φ) : Prop where
  size : s.frames.size ≤ s'.frames.size
  parent : ∀ i < s.frames.size, s'.parent? i = s.parent? i
  slots : ∀ i < s.frames.size, i ≠ frame → ∀ j, (s'.slot? i j).isSome = (s.slot? i j).isSome

theorem Grows.keeps (h : Grows s s') (frame : FrameId) : Keeps frame s s' :=
  ⟨h.size, h.parent, fun i hi _ j => h.slots i hi j⟩

theorem keeps_reserve (s : Store φ) (hframe : frame < s.frames.size) (cell : Cell) :
    Keeps frame s (s.reserve frame cell) := by
  refine ⟨Nat.le_of_eq (size_put s frame cell.id none).symm, fun i _ => parent?_put s frame cell.id none i,
    fun i _ hne j => ?_⟩
  rw [reserve, slot?_put_eq hframe, if_neg fun h => hne h.1]

namespace Keeps

theorem refl (frame : FrameId) (s : Store φ) : Keeps frame s s := (Grows.refl s).keeps frame

theorem trans (h : Keeps frame s s') (h' : Keeps frame s' s'') : Keeps frame s s'' := by
  have hlt {i : FrameId} (hi : i < s.frames.size) : i < s'.frames.size := Nat.lt_of_lt_of_le hi h.size
  refine ⟨Nat.le_trans h.size h'.size, fun i hi => ?_, fun i hi hne j => ?_⟩
  · rw [h'.parent i (hlt hi), h.parent i hi]
  · rw [h'.slots i (hlt hi) hne, h.slots i hi hne]

/-- a frame that was not there when the store grew may have been any -/
theorem of_new (h : Keeps i s s') (hi : s.frames.size ≤ i) (frame : FrameId) : Keeps frame s s' :=
  ⟨h.size, h.parent, fun k hk _ j => h.slots k hk (Nat.ne_of_lt (Nat.lt_of_lt_of_le hk hi)) j⟩

theorem chain (h : Keeps frame s s') (hi : i < s.frames.size) : s'.chain i = s.chain i :=
  chain_congr fun j hj => h.parent j (Nat.lt_of_le_of_lt hj hi)

theorem holds (h : Keeps frame s s') (hne : i ≠ frame) {cells : List Cell} (hi : s.Holds i cells) : s'.Holds i cells :=
  ⟨Nat.lt_of_lt_of_le hi.made h.size, fun j => by rw [h.slots i hi.made hne, hi.slots]⟩

/-- frames go on mirroring scopes, if the one that changes is not among them -/
theorem mirrors (h : Keeps frame s s') {a : Arena} {frames : List FrameId} {scopes : List ScopeId}
    (hne : ∀ i ∈ frames, i ≠ frame) (hmirrors : s.Mirrors a frames scopes) : s'.Mirrors a frames scopes := by
  induction hmirrors with
  | nil => exact .nil
  | cons hhead _ ih =>
    obtain ⟨hfirst, hrest⟩ := List.forall_mem_cons.1 hne
    exact .cons (h.holds hfirst hhead) (ih hrest)

/-- a frame that was made before the one that changes, and those around it -/
theorem mirrors_chain (h : Keeps frame s s') (hi : i < frame) {a : Arena} {scopes : List ScopeId}
    (hmirrors : s.Mirrors a (s.chain i) scopes) : s'.Mirrors a (s'.chain i) scopes := by
  rw [h.chain hmirrors.made]
  exact h.mirrors (fun j hj => Nat.ne_of_lt (Nat.lt_of_le_of_lt (le_of_mem_chain hj) hi)) hmirrors

/-- the frames around one that was made before the one that changes, or is it -/
theorem mirrors_around (h : Keeps frame s s') (hmade : i < s.frames.size) (hi : i ≤ frame) {a : Arena}
    {scopes : List ScopeId} (hmirrors : s.Mirrors a (s.chain i).tail scopes) :
    s'.Mirrors a (s'.chain i).tail scopes := by
  rw [h.chain hmade]
  exact h.mirrors (fun j hj => Nat.ne_of_lt (Nat.lt_of_lt_of_le (lt_of_mem_tail_chain hj) hi)) hmirrors

end Keeps

/-! ## Variables in reach -/

/-- a cell of the scopes that frames mirror is found in the frame at the level of its scope -/
theorem Mirrors.find? {a : Arena} (ha : a.WellFormed) {frames : List FrameId} {scopes : List ScopeId}
    (h : s.Mirrors a frames scopes) {x : ScopeId} {cell : Cell} (hx : x ∈ scopes) (hcell : cell ∈ a.cells x) :
    ∃ (k : Nat) (i : FrameId), scopes[k]? = some x ∧ frames[k]? = some i ∧
      frames.find? (fun i => (s.slot? i cell.id).isSome) = some i := by
  induction h with
  | nil => cases hx
  | @cons i y frames scopes hhead _ ih =>
    by_cases hy : ∃ other ∈ a.cells y, other.id = cell.id
    · -- cells have numbers of their own, so that the scope of the cell is this one
      obtain ⟨other, hother, hid⟩ := hy
      obtain rfl : y = x := a.eq_of_mem_cells ha hother hcell hid
      refine ⟨0, i, rfl, rfl, ?_⟩
      rw [List.find?_cons, (hhead.slots cell.id).2 ⟨cell, hcell, rfl⟩]
    · obtain hx | hx := List.mem_cons.1 hx
      · exact absurd ⟨cell, hx ▸ hcell, rfl⟩ hy
      · obtain ⟨k, j, hk, hj, hfind⟩ := ih hx
        refine ⟨k + 1, j, hk, hj, ?_⟩
        rw [List.find?_cons, Bool.eq_false_iff.2 fun hslot => hy ((hhead.slots cell.id).1 hslot)]
        exact hfind

/-- where the frames around a frame mirror scopes, a cell of one of them is found at its level -/
theorem Mirrors.holder {a : Arena} (ha : a.WellFormed) {scopes : List ScopeId}
    (h : s.Mirrors a (s.chain frame) scopes) {x : ScopeId} {cell : Cell} (hx : x ∈ scopes) (hcell : cell ∈ a.cells x) :
    ∃ (k : Nat) (i : FrameId), scopes[k]? = some x ∧ (s.chain frame)[k]? = some i ∧
    s.holder? frame cell.id = some i := by
  rw [holder?_eq_find?]
  exact h.find? ha hx hcell

end Store

end TypedScript
