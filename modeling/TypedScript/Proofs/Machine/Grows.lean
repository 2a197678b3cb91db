/-
How a store changes while a program runs. Frames are added, and the cells that a frame has get values; nothing is taken
away (`Store.Grows`), so that a variable that was given a value has one for good (`Store.Initialised`).

- `Store.Grows.holder?`: a cell is found in the same frame later on.
- `Store.Grows.initialised`: a variable that has a value has one later on.
- `Store.slot?_fill`, `Store.initialised_fill`: what a new frame holds.
-/
import TypedScript.Proofs.Direct.Lower
import TypedScript.Proofs.Machine.Functions

namespace TypedScript

namespace Store

variable {φ : Type} {s s' s'' : Store φ} {frame i : FrameId} {id j : Nat} {content : Option (Value φ)} {v : Value φ}

/-! ## Single changes -/

theorem get?_put (s : Store φ) (frame : FrameId) (cell : Nat) (content : Option (Value φ)) (i : FrameId) :
    (s.put frame cell content).get? i =
      if i = frame then (s.get? i).map fun f => { f with cells := f.cells.insert cell content } else s.get? i := by
  unfold get? put
  rw [Array.getElem?_modify]
  by_cases h : i = frame
  · rw [if_pos h.symm, if_pos h]
  · rw [if_neg (Ne.symm h), if_neg h]

theorem parent?_put (s : Store φ) (frame : FrameId) (cell : Nat) (content : Option (Value φ)) (i : FrameId) :
    (s.put frame cell content).parent? i = s.parent? i := by
  unfold parent?
  rw [get?_put]
  by_cases hi : i = frame
  · rw [if_pos hi]
    cases s.get? i with
    | none => rfl
    | some f =>
      obtain ⟨cells, parent, running⟩ := f
      cases parent <;> rfl
  · rw [if_neg hi]

theorem slot?_put_eq (h : frame < s.frames.size) (cell : Nat) (content : Option (Value φ)) (i : FrameId) (j : Nat) :
    (s.put frame cell content).slot? i j = if i = frame ∧ cell = j then some content else s.slot? i j := by
  unfold slot?
  rw [get?_put]
  by_cases hi : i = frame
  · have hget : s.get? i = some s.frames[frame] := by
      rw [hi]
      exact Array.getElem?_eq_getElem h
    rw [if_pos hi, hget, Option.map_some, Option.bind_some, Option.bind_some, Table.find?_insert]
    by_cases hj : cell = j
    · rw [if_pos hj, if_pos ⟨hi, hj⟩]
    · rw [if_neg hj, if_neg fun h => hj h.2]
  · rw [if_neg hi, if_neg fun h => hi h.1]

theorem size_addFrame (s : Store φ) (fr : Frame φ) : (s.add fr).2.frames.size = s.frames.size + 1 := Array.size_push _

theorem get?_addFrame (s : Store φ) (fr : Frame φ) (i : FrameId) :
    (s.add fr).2.get? i = if i = s.frames.size then some fr else s.get? i := by
  unfold get? add
  rw [Array.getElem?_push]

theorem lt_of_slot? (h : s.slot? frame id = some content) : frame < s.frames.size := by
  obtain ⟨f, hf, _⟩ := Option.bind_eq_some_iff.1 h
  obtain ⟨hlt, _⟩ := Array.getElem?_eq_some_iff.1 hf
  exact hlt

/-! ## Cells in reach -/

/-- a cell is found in a frame that has it, which is no later one -/
theorem holder?_some {holder : FrameId} (h : s.holder? frame id = some holder) :
    holder ≤ frame ∧ (s.slot? holder id).isSome = true := by
  induction frame using Nat.strongRecOn with
  | ind frame ih =>
    rw [holder?_eq] at h
    split at h
    · next hslot =>
      obtain rfl : frame = holder := Option.some.inj h
      exact ⟨Nat.le_refl _, hslot⟩
    · obtain ⟨parent, hparent, h⟩ := Option.bind_eq_some_iff.1 h
      obtain ⟨hle, hslot⟩ := ih parent (parent?_lt hparent) h
      exact ⟨Nat.le_trans hle (Nat.le_of_lt (parent?_lt hparent)), hslot⟩

/-- the variable of a cell has a value in reach of a frame -/
def Initialised (s : Store φ) (frame : FrameId) (id : Nat) : Prop :=
  ∃ holder v, s.holder? frame id = some holder ∧ s.slot? holder id = some (some v)

theorem initialised_of_slot? (h : s.slot? frame id = some (some v)) : s.Initialised frame id := by
  refine ⟨frame, v, ?_, h⟩
  rw [holder?_eq, h]
  rfl

theorem Initialised.load {cell : Cell} (h : s.Initialised frame cell.id) :
    ∃ holder v, s.slot? holder cell.id = some (some v) ∧ s.load frame cell = .ok v := by
  obtain ⟨holder, v, hholder, hslot⟩ := h
  refine ⟨holder, v, hslot, ?_⟩
  unfold Store.load
  rw [hholder, Option.bind_some, hslot]

/-! ## Growth -/

/-- a store later on: frames stay what they are, and their cells may get values -/
structure Grows (s s' : Store φ) : Prop where
  size : s.frames.size ≤ s'.frames.size
  parent : ∀ i < s.frames.size, s'.parent? i = s.parent? i
  running : ∀ i < s.frames.size, s'.running? i = s.running? i
  slots : ∀ i < s.frames.size, ∀ j, (s'.slot? i j).isSome = (s.slot? i j).isSome
  kept : ∀ i j v, s.slot? i j = some (some v) → ∃ w, s'.slot? i j = some (some w)

namespace Grows

theorem refl (s : Store φ) : Grows s s :=
  ⟨Nat.le_refl _, fun _ _ => rfl, fun _ _ => rfl, fun _ _ _ => rfl, fun _ _ v h => ⟨v, h⟩⟩

theorem trans (h : Grows s s') (h' : Grows s' s'') : Grows s s'' := by
  have hlt {i : FrameId} (hi : i < s.frames.size) : i < s'.frames.size := Nat.lt_of_lt_of_le hi h.size
  refine ⟨Nat.le_trans h.size h'.size, fun i hi => ?_, fun i hi => ?_, fun i hi j => ?_, fun i j v hv => ?_⟩
  · rw [h'.parent i (hlt hi), h.parent i hi]
  · rw [h'.running i (hlt hi), h.running i hi]
  · rw [h'.slots i (hlt hi), h.slots i hi]
  · obtain ⟨w, hw⟩ := h.kept i j v hv
    exact h'.kept i j w hw

/-- frames that were there stay as they are -/
theorem of_get? (hsize : s.frames.size ≤ s'.frames.size) (h : ∀ i < s.frames.size, s'.get? i = s.get? i) :
    Grows s s' := by
  have hslot {i : FrameId} (hi : i < s.frames.size) (j : Nat) : s'.slot? i j = s.slot? i j := by
    unfold slot?
    rw [h i hi]
  refine ⟨hsize, fun i hi => ?_, fun i hi => ?_, fun i hi j => congrArg Option.isSome (hslot hi j), fun i j v hv => ?_⟩
  · unfold parent?
    rw [h i hi]
  · unfold running?
    rw [h i hi]
  · exact ⟨v, by rw [hslot (lt_of_slot? hv), hv]⟩

/-- a cell that a frame has gets a value -/
theorem put {cell : Nat} (hcell : (s.slot? frame cell).isSome = true) (v : Value φ) :
    Grows s (s.put frame cell (some v)) := by
  obtain ⟨content, hcontent⟩ := Option.isSome_iff_exists.1 hcell
  have hframe := lt_of_slot? hcontent
  refine ⟨Nat.le_of_eq (size_put s frame cell _).symm, fun i _ => parent?_put s frame cell _ i,
    fun i _ => running?_put s frame cell _ i, fun i _ j => ?_, fun i j w hw => ?_⟩
  · rw [slot?_put_eq hframe]
    split
    · next heq =>
      obtain ⟨rfl, rfl⟩ := heq
      rw [hcell]
      rfl
    · rfl
  · rw [slot?_put_eq hframe]
    split
    · exact ⟨v, rfl⟩
    · exact ⟨w, hw⟩

/-- a cell is found in the same frame later on -/
theorem holder? (h : Grows s s') (hframe : frame < s.frames.size) (id : Nat) :
    s'.holder? frame id = s.holder? frame id := by
  induction frame using Nat.strongRecOn with
  | ind frame ih =>
    rw [holder?_eq, holder?_eq, h.slots frame hframe, h.parent frame hframe]
    split
    · rfl
    · cases hparent : s.parent? frame with
      | none => rfl
      | some parent =>
        have hlt := parent?_lt hparent
        exact ih parent hlt (Nat.lt_trans hlt hframe)

/-- a variable that has a value has one later on -/
theorem initialised (h : Grows s s') (hframe : frame < s.frames.size) (hid : s.Initialised frame id) :
    s'.Initialised frame id := by
  obtain ⟨holder, v, hholder, hslot⟩ := hid
  obtain ⟨w, hw⟩ := h.kept holder id v hslot
  exact ⟨holder, w, (h.holder? hframe id).trans hholder, hw⟩

end Grows

/-! ## New frames -/

theorem get?_fill {slots : List (Cell × Option (Value φ))} (hi : i ≠ frame) :
    (s.fill frame slots).get? i = s.get? i := by
  unfold fill
  induction slots generalizing s with
  | nil => rfl
  | cons slot slots ih => rw [List.foldl_cons, ih, get?_put, if_neg hi]

theorem size_fill (s : Store φ) (frame : FrameId) (slots : List (Cell × Option (Value φ))) :
    (s.fill frame slots).frames.size = s.frames.size := by
  unfold fill
  induction slots generalizing s with
  | nil => rfl
  | cons slot slots ih => rw [List.foldl_cons, ih, size_put]

theorem parent?_fill (s : Store φ) (frame : FrameId) (slots : List (Cell × Option (Value φ))) (i : FrameId) :
    (s.fill frame slots).parent? i = s.parent? i := by
  unfold fill
  induction slots generalizing s with
  | nil => rfl
  | cons slot slots ih => rw [List.foldl_cons, ih, parent?_put]

theorem running?_fill (s : Store φ) (frame : FrameId) (slots : List (Cell × Option (Value φ))) (i : FrameId) :
    (s.fill frame slots).running? i = s.running? i := by
  unfold fill
  induction slots generalizing s with
  | nil => rfl
  | cons slot slots ih => rw [List.foldl_cons, ih, running?_put]

/-- what is found in a frame that was filled was put into it or was there -/
theorem slot?_fill {slots : List (Cell × Option (Value φ))} (hframe : frame < s.frames.size)
    (h : (s.fill frame slots).slot? i j = some content) :
    (i = frame ∧ ∃ cell, (cell, content) ∈ slots ∧ cell.id = j) ∨ s.slot? i j = some content := by
  unfold fill at h
  induction slots generalizing s with
  | nil => exact Or.inr h
  | cons slot slots ih =>
    rw [List.foldl_cons] at h
    rcases ih (by rwa [size_put]) h with ⟨hi, cell, hmem, hcell⟩ | hold
    · exact Or.inl ⟨hi, cell, List.mem_cons_of_mem _ hmem, hcell⟩
    · rw [slot?_put_eq hframe] at hold
      split at hold
      · next heq =>
        obtain rfl := Option.some.inj hold
        exact Or.inl ⟨heq.1, slot.1, List.mem_cons_self, heq.2⟩
      · exact Or.inr hold

/-- what was put into a frame is there -/
theorem isSome_fill {slots : List (Cell × Option (Value φ))} (hframe : frame < s.frames.size) {j : Nat}
    (h : (s.slot? frame j).isSome = true ∨ ∃ slot ∈ slots, slot.1.id = j) :
    ((s.fill frame slots).slot? frame j).isSome = true := by
  unfold fill
  induction slots generalizing s with
  | nil => exact h.resolve_right fun ⟨_, hmem, _⟩ => nomatch hmem
  | cons slot slots ih =>
    rw [List.foldl_cons]
    refine ih (by rwa [size_put]) ?_
    rw [slot?_put_eq hframe]
    by_cases hj : slot.1.id = j
    · rw [if_pos ⟨rfl, hj⟩]
      exact Or.inl rfl
    · rw [if_neg fun h => hj h.2]
      refine h.imp_right ?_
      rintro ⟨other, hmem, hother⟩
      rcases List.mem_cons.1 hmem with rfl | hmem
      · exact absurd hother hj
      · exact ⟨other, hmem, hother⟩

section

variable {fr : Frame φ} {slots : List (Cell × Option (Value φ))}

/-- a store with a new frame that was filled -/
theorem grows_newFrame (s : Store φ) (fr : Frame φ) (slots : List (Cell × Option (Value φ))) :
    Grows s ((s.add fr).2.fill (s.add fr).1 slots) := by
  refine .of_get? ?_ fun i hi => ?_
  · rw [size_fill]
    exact Nat.le_of_lt (by simp [add])
  · have hne : i ≠ (s.add fr).1 := Nat.ne_of_lt hi
    rw [get?_fill hne, get?_addFrame, if_neg (Nat.ne_of_lt hi)]

/-- what a new frame holds was put into it -/
theorem slot?_newFrame (hcells : fr.cells = .empty)
    (h : ((s.add fr).2.fill (s.add fr).1 slots).slot? i j = some content) :
    (i = s.frames.size ∧ ∃ cell, (cell, content) ∈ slots ∧ cell.id = j) ∨ s.slot? i j = some content := by
  have hframe : (s.add fr).1 < (s.add fr).2.frames.size := by simp [add]
  refine (slot?_fill hframe h).imp_right fun hold => ?_
  unfold slot? at hold ⊢
  rw [get?_addFrame] at hold
  split at hold
  · rw [Option.bind_some, hcells] at hold
    cases hold
  · exact hold

theorem isSome_newFrame (h : ∃ slot ∈ slots, slot.1.id = j) :
    (((s.add fr).2.fill (s.add fr).1 slots).slot? s.frames.size j).isSome = true := by
  have hframe : (s.add fr).1 < (s.add fr).2.frames.size := by simp [add]
  exact isSome_fill hframe (Or.inr h)

theorem running?_newFrame : ((s.add fr).2.fill (s.add fr).1 slots).running? s.frames.size = fr.running := by
  rw [running?_fill]
  unfold running?
  rw [get?_addFrame, if_pos rfl]
  rfl

theorem parent?_newFrame (haround : ∀ around, fr.parent = some around → around < s.frames.size) :
    ((s.add fr).2.fill (s.add fr).1 slots).parent? s.frames.size = fr.parent := by
  rw [parent?_fill]
  unfold parent?
  rw [get?_addFrame, if_pos rfl]
  obtain ⟨cells, parent, running⟩ := fr
  cases parent with
  | none => rfl
  | some around => exact if_pos (haround around rfl)

/-- what has a value in the frame around a new one has a value in the new one, if the new one has no such cell itself -/
theorem initialised_newFrame (hcells : fr.cells = .empty) {around : FrameId} (hparent : fr.parent = some around)
    (haround : around < s.frames.size) (hid : s.Initialised around id) (hnew : ∀ slot ∈ slots, slot.1.id ≠ id) :
    ((s.add fr).2.fill (s.add fr).1 slots).Initialised s.frames.size id := by
  have hgrows := grows_newFrame s fr slots
  have hnone : ((s.add fr).2.fill (s.add fr).1 slots).slot? s.frames.size id = none := by
    cases hslot : ((s.add fr).2.fill (s.add fr).1 slots).slot? s.frames.size id with
    | none => rfl
    | some content =>
      rcases slot?_newFrame hcells hslot with ⟨_, cell, hmem, hcell⟩ | hold
      · exact absurd hcell (hnew _ hmem)
      · exact absurd (lt_of_slot? hold) (Nat.lt_irrefl _)
  obtain ⟨holder, v, hholder, hslot⟩ := hgrows.initialised haround hid
  refine ⟨holder, v, ?_, hslot⟩
  have hin (around' : FrameId) (h : fr.parent = some around') : around' < s.frames.size := by
    rw [hparent] at h
    cases h
    exact haround
  rw [holder?_eq, hnone, parent?_newFrame hin, hparent]
  exact hholder

end

end Store

end TypedScript
