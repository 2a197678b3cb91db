/-
Values and stores with other places for their frames and other identities for their functions. A place is given a new
one in the same order, and an identity a new one of its own (`Renaming`). A store may have more frames than another one:
what one does in its frames, the other does in those at the new places (`Store.Embeds`), and both go on to make frames
and functions that correspond.

- `Store.Embeds.holder?`, `Store.Embeds.load`: a cell is found at the new place, with the value renamed.
- `Store.Embeds.put`, `Store.Embeds.add`, `Store.Embeds.newClosure`: what changes one store changes the other alike.
- `Store.embeds_beyond`: a store that has the frames of another one first, and any more behind them.
-/
import Mathlib.Order.Monotone.Basic
import TypedScript.Proofs.Machine.Grows
import TypedScript.Proofs.Machine.Map

namespace TypedScript

variable {φ : Type}

/-- new places for frames, and new identities for functions -/
structure Renaming where
  frame : FrameId → FrameId
  identity : Nat → Nat
  /-- frames that were made later are behind -/
  mono : StrictMono frame
  injective : Function.Injective identity

variable {ρ : Renaming}

def Closure.rename (ρ : Renaming) (c : Closure φ) : Closure φ := ⟨ρ.identity c.identity, c.template, ρ.frame c.frame⟩

/-- two functions are the same just if they were -/
theorem Closure.rename_identity (ρ : Renaming) (c d : Closure φ) :
    (c.rename ρ).identity = (d.rename ρ).identity ↔ c.identity = d.identity := ρ.injective.eq_iff

def Value.rename (ρ : Renaming) : Value φ → Value φ := remake (Closure.rename ρ)

namespace Value

theorem rename_list (vs : List (Value φ)) : (list vs).rename ρ = list (vs.map (rename ρ)) :=
  congrArg list (remakeItems_eq _ vs)

mutual

/-- a value all of whose functions stay is the same -/
theorem remake_eq_self {g : Closure φ → Closure φ} {v : Value φ} (h : ∀ c ∈ v.closures, g c = c) : v.remake g = v := by
  cases v with
  | list items => exact congrArg list (remakeItems_eq_self h)
  | closure c => exact congrArg closure (h c List.mem_cons_self)
  | _ => rfl
termination_by structural v

theorem remakeItems_eq_self {g : Closure φ → Closure φ} {vs : List (Value φ)} (h : ∀ c ∈ closuresOf vs, g c = c) :
    remakeItems g vs = vs := by
  cases vs with
  | nil => rfl
  | cons v vs =>
    rw [remakeItems, remake_eq_self fun c hc => h c (List.mem_append_left _ hc),
      remakeItems_eq_self fun c hc => h c (List.mem_append_right _ hc)]
termination_by structural vs

end

end Value

namespace Store

variable {s s' : Store φ} {i : FrameId}

/-- nothing is put into a frame that is not there -/
theorem put_of_ge (hi : ¬ i < s.frames.size) (j : Nat) (content : Option (Value φ)) : s.put i j content = s := by
  obtain ⟨frames, identity⟩ := s
  unfold put
  congr 1
  refine Array.ext_getElem? fun k => ?_
  rw [Array.getElem?_modify]
  split
  · next heq =>
    rw [← heq, Array.getElem?_eq_none (Nat.le_of_not_lt hi)]
    rfl
  · rfl

/-- what is in the frames of one store is in the other, at their new places and with all functions renamed -/
structure Embeds (ρ : Renaming) (s s' : Store φ) : Prop where
  slots : ∀ i j, s'.slot? (ρ.frame i) j = (s.slot? i j).map (Option.map (Value.rename ρ))
  parents : ∀ i, s'.parent? (ρ.frame i) = (s.parent? i).map ρ.frame
  running : ∀ i, s'.running? (ρ.frame i) = (s.running? i).map (Closure.rename ρ)
  /-- frames that are still to be made correspond -/
  places : ∀ k, ρ.frame (s.frames.size + k) = s'.frames.size + k
  /-- and so do functions -/
  identities : ∀ k, ρ.identity (s.nextIdentity + k) = s'.nextIdentity + k

namespace Embeds

theorem lt_iff (h : Embeds ρ s s') : ρ.frame i < s'.frames.size ↔ i < s.frames.size := by
  have hplace : ρ.frame s.frames.size = s'.frames.size := h.places 0
  rw [← hplace]
  exact ρ.mono.lt_iff_lt

theorem eq_size_iff (h : Embeds ρ s s') : ρ.frame i = s'.frames.size ↔ i = s.frames.size := by
  have hplace : ρ.frame s.frames.size = s'.frames.size := h.places 0
  rw [← hplace]
  exact ρ.mono.injective.eq_iff

/-- a cell is found in the frame at the new place -/
theorem holder? (h : Embeds ρ s s') (i : FrameId) (j : Nat) :
    s'.holder? (ρ.frame i) j = (s.holder? i j).map ρ.frame := by
  induction i using Nat.strongRecOn with
  | ind i ih =>
    rw [holder?_eq, holder?_eq, h.slots, Option.isSome_map, h.parents]
    by_cases hslot : (s.slot? i j).isSome = true
    · rw [if_pos hslot, if_pos hslot]
      rfl
    · rw [if_neg hslot, if_neg hslot]
      cases hparent : s.parent? i with
      | none => rfl
      | some parent => exact ih parent (parent?_lt hparent)

theorem load (h : Embeds ρ s s') (i : FrameId) (cell : Cell) :
    s'.load (ρ.frame i) cell = (s.load i cell).map (Value.rename ρ) := by
  unfold Store.load
  rw [h.holder?]
  cases s.holder? i cell.id with
  | none => rfl
  | some holder =>
    rw [Option.map_some, Option.bind_some, Option.bind_some, h.slots]
    cases s.slot? holder cell.id with
    | none => rfl
    | some content => cases content <;> rfl

theorem put (h : Embeds ρ s s') (i : FrameId) (j : Nat) (content : Option (Value φ)) :
    Embeds ρ (s.put i j content) (s'.put (ρ.frame i) j (content.map (Value.rename ρ))) := by
  refine ⟨fun k l => ?_, fun k => ?_, fun k => ?_, fun k => ?_, h.identities⟩
  · have hsame : ρ.frame k = ρ.frame i ∧ j = l ↔ k = i ∧ j = l := and_congr_left fun _ => ρ.mono.injective.eq_iff
    by_cases hi : i < s.frames.size
    · rw [slot?_put_eq hi, slot?_put_eq (h.lt_iff.2 hi), h.slots]
      by_cases hkl : k = i ∧ j = l
      · rw [if_pos hkl, if_pos (hsame.2 hkl)]
        rfl
      · rw [if_neg hkl, if_neg (mt hsame.1 hkl)]
    · rw [put_of_ge hi, put_of_ge (mt h.lt_iff.1 hi), h.slots]
  · rw [parent?_put, parent?_put, h.parents]
  · rw [running?_put, running?_put, h.running]
  · rw [size_put, size_put, h.places]

/-- a frame is made in both, with no cells yet -/
theorem add (h : Embeds ρ s s') (around : Option FrameId) (callee : Option (Closure φ)) :
    Embeds ρ (s.add ⟨.empty, around, callee⟩).2
      (s'.add ⟨.empty, around.map ρ.frame, callee.map (Closure.rename ρ)⟩).2 := by
  refine ⟨fun i j => ?_, fun i => ?_, fun i => ?_, fun k => ?_, h.identities⟩
  · have hold := h.slots i j
    unfold slot? at hold ⊢
    rw [get?_addFrame, get?_addFrame]
    by_cases hi : i = s.frames.size
    · rw [if_pos hi, if_pos (h.eq_size_iff.2 hi)]
      rfl
    · rw [if_neg hi, if_neg (mt h.eq_size_iff.1 hi)]
      exact hold
  · have hold := h.parents i
    unfold parent? at hold ⊢
    rw [get?_addFrame, get?_addFrame]
    by_cases hi : i = s.frames.size
    · rw [if_pos hi, if_pos (h.eq_size_iff.2 hi)]
      cases around with
      | none => rfl
      | some p =>
        have hbefore : ρ.frame p < ρ.frame i ↔ p < i := ρ.mono.lt_iff_lt
        by_cases hp : p < i
        · simp [hp, hbefore.2 hp]
        · simp [hp, mt hbefore.1 hp]
    · rw [if_neg hi, if_neg (mt h.eq_size_iff.1 hi)]
      exact hold
  · have hold := h.running i
    unfold running? at hold ⊢
    rw [get?_addFrame, get?_addFrame]
    by_cases hi : i = s.frames.size
    · rw [if_pos hi, if_pos (h.eq_size_iff.2 hi)]
      rfl
    · rw [if_neg hi, if_neg (mt h.eq_size_iff.1 hi)]
      exact hold
  · rw [size_addFrame, size_addFrame, Nat.add_assoc, Nat.add_assoc]
    exact h.places (1 + k)

theorem newRoot (h : Embeds ρ s s') : s'.newRoot.1 = ρ.frame s.newRoot.1 ∧ Embeds ρ s.newRoot.2 s'.newRoot.2 :=
  ⟨(h.places 0).symm, h.add none none⟩

theorem newCall (h : Embeds ρ s s') (c : Closure φ) :
    (s'.newCall (c.rename ρ)).1 = ρ.frame (s.newCall c).1 ∧ Embeds ρ (s.newCall c).2 (s'.newCall (c.rename ρ)).2 :=
  ⟨(h.places 0).symm, h.add (some c.frame) (some c)⟩

theorem newClosure (h : Embeds ρ s s') (t : φ) (i : FrameId) :
    (s'.newClosure t (ρ.frame i)).1 = ((s.newClosure t i).1).rename ρ ∧
      Embeds ρ (s.newClosure t i).2 (s'.newClosure t (ρ.frame i)).2 := by
  have hidentity : ρ.identity s.nextIdentity = s'.nextIdentity := h.identities 0
  refine ⟨?_, h.slots, h.parents, h.running, h.places, fun k => ?_⟩
  · unfold Store.newClosure Closure.rename
    rw [hidentity]
  · unfold Store.newClosure
    dsimp only
    rw [Nat.add_assoc, Nat.add_assoc]
    exact h.identities (1 + k)

end Embeds

end Store

/-! ## More frames -/

/-- the first numbers stay, and room is made behind them -/
def makeRoom (first room i : Nat) : Nat := if i < first then i else i + room

theorem strictMono_makeRoom (first room : Nat) : StrictMono (makeRoom first room) := by
  intro i j hij
  unfold makeRoom
  split <;> split <;> omega

/-- the places and identities in a store stay, and room is made behind them for what another store has besides -/
def Renaming.beyond (s s' : Store φ) : Renaming where
  frame := makeRoom s.frames.size (s'.frames.size - s.frames.size)
  identity := makeRoom s.nextIdentity (s'.nextIdentity - s.nextIdentity)
  mono := strictMono_makeRoom _ _
  injective := (strictMono_makeRoom _ _).injective

namespace Store

variable {s s' : Store φ}

/-- a function that was made in a store, over one of its frames -/
def Made (s : Store φ) (c : Closure φ) : Prop := c.frame < s.frames.size ∧ c.identity < s.nextIdentity

/-- the functions in a store were made in it -/
structure Closed (s : Store φ) : Prop where
  slots : ∀ i j v, s.slot? i j = some (some v) → ∀ c ∈ v.closures, s.Made c
  running : ∀ i c, s.running? i = some c → s.Made c

/-- a store has the frames of another one first, and perhaps others behind them -/
structure Extends (s s' : Store φ) : Prop where
  size : s.frames.size ≤ s'.frames.size
  identity : s.nextIdentity ≤ s'.nextIdentity
  frames : ∀ i < s.frames.size, s'.get? i = s.get? i

end Store

/-- new places and identities that leave all functions which were made in a store as they are -/
def Renaming.Fixes (ρ : Renaming) (s : Store φ) : Prop := ∀ c : Closure φ, s.Made c → c.rename ρ = c

theorem Renaming.fixes_beyond (s s' : Store φ) : (beyond s s').Fixes s := by
  rintro ⟨identity, template, frame⟩ ⟨hframe, hidentity⟩
  exact congrArg₂ (Closure.mk · template ·) (if_pos hidentity) (if_pos hframe)

theorem Renaming.Fixes.rename {s : Store φ} (hρ : ρ.Fixes s) {v : Value φ} (h : ∀ c ∈ v.closures, s.Made c) :
    v.rename ρ = v :=
  Value.remake_eq_self fun c hc => hρ c (h c hc)

namespace Store

variable {s s' : Store φ} {c : Closure φ}

/-- a frame of the one store is the same in the other, and what is behind all frames of the one is behind those of the
other -/
theorem Extends.get? (h : s.Extends s') (i : Nat) : s'.get? ((Renaming.beyond s s').frame i) = s.get? i := by
  have hsize := h.size
  change s'.get? (makeRoom s.frames.size (s'.frames.size - s.frames.size) i) = s.get? i
  unfold makeRoom
  by_cases hi : i < s.frames.size
  · rw [if_pos hi]
    exact h.frames i hi
  · have hlast : s'.frames.size ≤ i + (s'.frames.size - s.frames.size) := by omega
    rw [if_neg hi, Store.get?, Store.get?, Array.getElem?_eq_none hlast, Array.getElem?_eq_none (Nat.le_of_not_lt hi)]

/-- the frames behind those of a store do not show, if nothing in the store leads to them -/
theorem embeds_beyond (hclosed : s.Closed) (h : s.Extends s') : Embeds (.beyond s s') s s' := by
  refine ⟨fun i j => ?_, fun i => ?_, fun i => ?_, fun k => ?_, fun k => ?_⟩
  · have hslot : s'.slot? ((Renaming.beyond s s').frame i) j = s.slot? i j := by rw [slot?, slot?, h.get?]
    rw [hslot]
    cases hfound : s.slot? i j with
    | none => rfl
    | some content =>
      cases content with
      | none => rfl
      | some v =>
        rw [Option.map_some, Option.map_some, (Renaming.fixes_beyond s s').rename (hclosed.slots i j v hfound)]
  · unfold parent?
    rw [h.get?]
    cases hget : s.get? i with
    | none => rfl
    | some f =>
      have hi : i < s.frames.size := (Array.getElem?_eq_some_iff.1 hget).1
      have hstays {j : FrameId} (hj : j < s.frames.size) : (Renaming.beyond s s').frame j = j := if_pos hj
      obtain ⟨cells, parent, running⟩ := f
      cases parent with
      | none => rfl
      | some p =>
        rw [hstays hi]
        by_cases hp : p < i
        · simp [hp, hstays (Nat.lt_trans hp hi)]
        · simp [hp]
  · have hrunning : s'.running? ((Renaming.beyond s s').frame i) = s.running? i := by rw [running?, running?, h.get?]
    rw [hrunning]
    cases hfound : s.running? i with
    | none => rfl
    | some c => rw [Option.map_some, Renaming.fixes_beyond s s' c (hclosed.running i c hfound)]
  · have hsize := h.size
    have hplace : makeRoom s.frames.size (s'.frames.size - s.frames.size) (s.frames.size + k) =
        s.frames.size + k + (s'.frames.size - s.frames.size) := if_neg (Nat.not_lt_of_le (Nat.le_add_right _ _))
    exact hplace.trans (by omega)
  · have hidentity := h.identity
    have hplace : makeRoom s.nextIdentity (s'.nextIdentity - s.nextIdentity) (s.nextIdentity + k) =
        s.nextIdentity + k + (s'.nextIdentity - s.nextIdentity) := if_neg (Nat.not_lt_of_le (Nat.le_add_right _ _))
    exact hplace.trans (by omega)

end Store

end TypedScript
