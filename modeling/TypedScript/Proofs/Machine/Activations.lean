/-
Activations. While a body is being run, what other modules have exported stays the same, and the frames that were made
before its own only grow; its own frame grows as well, but for the instructions that make its cells. No jump leads back,
so that on its way to a later place an activation comes to each place that no jump before it leads beyond.

- `Meets.modules`: wherever a run has got to, whatever calls are open, modules export what they exported at its start.
- `Onward.grows`: a step of an activation that makes no cell takes nothing away, whatever is called in it.
- `Meets.crosses`: an activation comes to each place that is not jumped over.
-/
import TypedScript.Proofs.Machine.Mirrored

namespace TypedScript

variable {σ : Type} {host : Host σ} {q q' start last : Moment σ} {n : Nat}

/-! ## Stores -/

namespace Store

variable {φ : Type} {s s' : Store φ} {frame : FrameId}

theorem slot?_put_of_ne {i : FrameId} (hi : i ≠ frame) (cell : Nat) (content : Option (Value φ)) (j : Nat) :
    (s.put frame cell content).slot? i j = s.slot? i j := by
  unfold slot?
  rw [get?_put, if_neg hi]

/-- what was there before a frame was made does not change with the frame -/
theorem Grows.put_behind (h : Grows s s') (hframe : s.frames.size ≤ frame) (cell : Nat) (content : Option (Value φ)) :
    Grows s (s'.put frame cell content) := by
  have hne {i : FrameId} (hi : i < s.frames.size) : i ≠ frame := Nat.ne_of_lt (Nat.lt_of_lt_of_le hi hframe)
  refine ⟨?_, fun i hi => ?_, fun i hi => ?_, fun i hi j => ?_, fun i j v hv => ?_⟩
  · rw [size_put]
    exact h.size
  · rw [parent?_put, h.parent i hi]
  · rw [running?_put, h.running i hi]
  · rw [slot?_put_of_ne (hne hi), h.slots i hi]
  · rw [slot?_put_of_ne (hne (lt_of_slot? hv))]
    exact h.kept i j v hv

end Store

/-! ## What an activation leaves as it is -/

/-- a later moment of the same activation: what was there before its frame was made has only grown since -/
structure Moment.Continues (q q' : Moment σ) : Prop where
  template : q'.template = q.template
  frame : q'.frame = q.frame
  grows : ∀ s : Store, s.frames.size ≤ q.frame → s.Grows q.machine.store → s.Grows q'.machine.store

theorem Moment.Continues.refl (q : Moment σ) : q.Continues q := ⟨rfl, rfl, fun _ _ h => h⟩

theorem Moment.Continues.trans {q q' q'' : Moment σ} (h : q.Continues q') (h' : q'.Continues q'') : q.Continues q'' :=
  ⟨h'.template.trans h.template, h'.frame.trans h.frame,
    fun s hs hgrows => h'.grows s (h.frame ▸ hs) (h.grows s hs hgrows)⟩

namespace Run.Step

variable {frame : FrameId} {m m' : Machine σ} {i : Instruction} {stack : Operands} {flow : Flow}

/-- an instruction takes nothing away from the frames that were made before its own -/
theorem grows_before (h : Step host frame m i stack flow m') {s : Store} (hframe : s.frames.size ≤ frame)
    (hs : s.Grows m.store) : s.Grows m'.store := by
  by_cases hi : ∃ cell, i = .reserve cell
  · obtain ⟨cell, rfl⟩ := hi
    obtain rfl := h.of_reserve
    exact hs.put_behind hframe _ _
  · exact hs.trans (h.grows fun cell heq => hi ⟨cell, heq⟩).1

/-- no instruction registers exports -/
theorem modules_eq (h : Step host frame m i stack flow m') : m'.modules = m.modules := by cases h <;> rfl

end Run.Step

/-- an instruction leads to a later moment of its activation -/
theorem Moment.Does.continues {i : Instruction} {flow : Flow} {m : Machine σ} (h : q.Does host i flow m) (place : Nat)
    (stack : Operands) : q.Continues (q.onward place stack m) :=
  ⟨rfl, rfl, fun _ => (Run.Step.of_execute h.2).grows_before⟩

/-- what was there before a call has only grown when the call ends -/
theorem Moment.Enters.grows {c : Closure} {arguments : List Value} {rest : Operands} {inner : FrameId} {m : Machine σ}
    (h : q.Enters host c arguments rest inner m) (hlast : (Moment.entered c inner m).Continues last) {s : Store}
    (hs : s.Grows q.machine.store) : s.Grows last.machine.store := by
  obtain ⟨rfl, rfl⟩ := h.opened
  exact hlast.grows s hs.size (hs.trans (Store.grows_newFrame _ _ _))

/-- calls leave the frames that were made before them as they are, but that they grow, and the exports of modules -/
theorem continues_lasting (modules : Table String Exports) :
    Lasting host (fun _ => True) (fun _ q => q.machine.modules = modules) Moment.Continues where
  refl := .refl
  trans := .trans
  next _ h hdoes := ⟨(Run.Step.of_execute hdoes.2).modules_eq.trans h, hdoes.continues _ _⟩
  jump _ h hdoes := ⟨(Run.Step.of_execute hdoes.2).modules_eq.trans h, hdoes.continues _ _⟩
  enter _ h henters := by
    obtain ⟨_, rfl⟩ := henters.opened
    exact h
  back {depth q c arguments rest inner m last v left m'} _ _ henters _ hlast hstays hleaves := by
    obtain rfl := hleaves.machine_eq
    exact ⟨hlast, rfl, rfl, fun _ _ => henters.grows hstays⟩

/-- wherever a run has got to, modules export what they exported at its start -/
theorem Meets.modules (h : Meets host start n q) : q.machine.modules = start.machine.modules :=
  (continues_lasting start.machine.modules).meets 0 (fun _ _ _ => trivial) rfl h

/-- a run that gives a value ends at a moment of its own activation -/
theorem Moment.exists_leaving {fuel : Nat} {v : Value} {left : Operands} {m : Machine σ}
    (h : q.run host fuel = .ok (v, left) m) :
    ∃ last, Meets host q 0 last ∧ q.Continues last ∧ last.Leaves host v left m := by
  obtain ⟨last, hmet, _, hcontinues, hleaves⟩ :=
    (continues_lasting q.machine.modules).exists_last 0 (fun _ _ _ => trivial) rfl h
  exact ⟨last, hmet, hcontinues, hleaves⟩

/-- a step of an activation that makes no cell takes nothing away -/
theorem Onward.grows (h : Onward host q q') (hi : ∀ cell, q.instruction? ≠ some (.reserve cell)) :
    q.machine.store.Grows q'.machine.store := by
  have hdoes {i : Instruction} {flow : Flow} {m : Machine σ} (h : q.Does host i flow m) :
      q.machine.store.Grows m.store :=
    ((Run.Step.of_execute h.2).grows fun cell heq => hi cell (heq ▸ h.1)).1
  cases h with
  | next does => exact hdoes does
  | jump does => exact hdoes does
  | back fuel enters returns =>
    obtain ⟨last, _, hcontinues, hleaves⟩ := Moment.exists_leaving returns
    obtain rfl := hleaves.machine_eq
    exact enters.grows hcontinues (.refl _)

/-! ## The way through a body -/

theorem Onward.exists_instruction (h : Onward host q q') : ∃ i, q.instruction? = some i := by
  cases h with
  | next does => exact ⟨_, does.1⟩
  | jump does => exact ⟨_, does.1⟩
  | back fuel enters returns =>
    obtain ⟨i, _, does, _⟩ := enters
    exact ⟨i, does.1⟩

/-- an instruction that neither jumps nor calls leads to the next place -/
theorem Onward.next_of (h : Onward host q q') {i : Instruction} (hi : q.instruction? = some i)
    (hjump : ∀ target, i ≠ .jumpIfFalse target) (hcall : ∀ count, i ≠ .dispatch count) :
    ∃ stack m, q.Does host i (.next stack) m ∧ q' = q.onward (q.place + 1) stack m := by
  have hdoes {j : Instruction} {flow : Flow} {m : Machine σ} (does : q.Does host j flow m) : j = i :=
    Option.some.inj (does.1.symm.trans hi)
  cases h with
  | next does => exact ⟨_, _, hdoes does ▸ does, rfl⟩
  | jump does =>
    obtain ⟨heq, _⟩ := (Run.Step.of_execute does.2).effect q.place
    exact absurd (hdoes does).symm (heq ▸ hjump _)
  | back fuel enters returns =>
    obtain ⟨j, m', does, _⟩ := enters
    obtain ⟨heq, _⟩ := (Run.Step.of_execute does.2).effect q.place
    exact absurd (hdoes does).symm (heq ▸ hcall _)

/-- what each step of an activation keeps is true wherever the activation has got to -/
theorem Meets.activation {P : Moment σ → Prop} (h : Meets host start 0 q) (hstart : P start)
    (hstep : ∀ q q', Meets host start 0 q → P q → Onward host q q' → P q') : P q := by
  generalize hn : 0 = n at h
  induction h with
  | start => exact hstart
  | onward met step ih => exact hstep _ _ (hn ▸ met) (ih hn) step
  | inward _ _ => cases hn

theorem Onward.template (h : Onward host q q') : q'.template = q.template := by cases h <;> rfl

theorem Onward.frame (h : Onward host q q') : q'.frame = q.frame := by cases h <;> rfl

theorem Meets.template (h : Meets host start 0 q) : q.template = start.template :=
  h.activation (P := fun q => q.template = start.template) rfl fun _ _ _ hq step => step.template.trans hq

theorem Meets.frame (h : Meets host start 0 q) : q.frame = start.frame :=
  h.activation (P := fun q => q.frame = start.frame) rfl fun _ _ _ hq step => step.frame.trans hq

/-- a step leads to the next place, or a jump to its target -/
theorem Onward.place (h : Onward host q q') :
    q'.place = q.place + 1 ∨ q.instruction? = some (.jumpIfFalse q'.place) := by
  cases h with
  | next does => exact Or.inl rfl
  | jump does =>
    obtain ⟨rfl, _⟩ := (Run.Step.of_execute does.2).effect q.place
    exact Or.inr does.1
  | back fuel enters returns => exact Or.inl rfl

/-- an activation that gets to a place that is not jumped over, or beyond it, comes to the place -/
theorem Meets.crosses {place : Nat} (hunskipped : Code.Unskipped start.template.code place)
    (hstart : start.place ≤ place) (h : Meets host start 0 q) (hq : place ≤ q.place) :
    ∃ mid, Meets host start 0 mid ∧ mid.place = place ∧ Meets host mid 0 q := by
  revert hq
  refine h.activation
    (P := fun q => place ≤ q.place → ∃ mid, Meets host start 0 mid ∧ mid.place = place ∧ Meets host mid 0 q)
    (fun hle => ⟨start, .start, Nat.le_antisymm hstart hle, .start⟩) fun q q' met ih step hle => ?_
  by_cases hbefore : place ≤ q.place
  · obtain ⟨mid, hmid, hplace, hto⟩ := ih hbefore
    exact ⟨mid, hmid, hplace, hto.onward step⟩
  · -- this is the step that comes to the place
    refine ⟨q', met.onward step, Nat.le_antisymm ?_ hle, .start⟩
    have hlt := Nat.lt_of_not_le hbefore
    rcases step.place with hnext | hjump
    · exact hnext ▸ hlt
    · unfold Moment.instruction? at hjump
      rw [met.template] at hjump
      exact hunskipped q.place q'.place hlt hjump

/-- an activation is where it started, or it has taken a step -/
theorem Meets.eq_or_step (h : Meets host start 0 q) :
    q = start ∨ ∃ first, Onward host start first ∧ Meets host first 0 q := by
  refine h.activation (P := fun q => q = start ∨ ∃ first, Onward host start first ∧ Meets host first 0 q) (Or.inl rfl)
    fun q q' _ ih step => Or.inr ?_
  rcases ih with rfl | ⟨first, hfirst, hto⟩
  · exact ⟨q', step, .start⟩
  · exact ⟨first, hfirst, hto.onward step⟩

end TypedScript
