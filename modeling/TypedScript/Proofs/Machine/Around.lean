/-
The functions around at a moment of a run: those among the operands, and those in the exports, cells and frames of the
machine or with the host. A function is made in one way only, by an instruction that pushes its template, over the frame
in which that instruction is executed (`Run.Creates`); with a host that hands on none but those it is given and those it
holds, every other function that is around was around before.

- `Moment.Does.around`: so it is over one instruction.
- `Moment.Enters.around`, `Moment.Leaves.around`: calling a function and coming back bring no new ones about.
-/
import TypedScript.Proofs.Machine.Running
import TypedScript.Proofs.Machine.Steps

namespace TypedScript

variable {σ : Type} {holds : σ → List Closure} {host : Host σ} {m m' : Machine σ} {q last : Moment σ} {c d : Closure}

/-- a host hands on no functions but those it is given and those it holds -/
structure Host.Passes (host : Host σ) (holds : σ → List Closure) : Prop where
  answer : ∀ id arguments memory v, (host.respond id arguments memory).1 = .ok v →
    ∀ c ∈ v.closures, c ∈ Value.closuresOf arguments ∨ c ∈ holds memory
  memory : ∀ id arguments memory, ∀ c ∈ holds (host.respond id arguments memory).2,
    c ∈ Value.closuresOf arguments ∨ c ∈ holds memory

theorem Host.Conserves.passes (h : host.Conserves holds) : host.Passes holds := ⟨h.answer, h.memory⟩

/-- a function is in an export, a cell or a frame of a machine, or with the host -/
inductive Machine.Around (holds : σ → List Closure) (m : Machine σ) (c : Closure) : Prop
  | exported {module name : String} {v : Value} (found : m.export? module name = some v) (mem : c ∈ v.closures)
  | kept {frame : FrameId} {cell : Nat} {v : Value} (found : m.store.slot? frame cell = some (some v))
      (mem : c ∈ v.closures)
  | called {frame : FrameId} (running : m.store.running? frame = some c)
  | held (mem : c ∈ holds m.memory)

/-- a function is among the operands or in the machine -/
def Moment.Around (holds : σ → List Closure) (q : Moment σ) (c : Closure) : Prop :=
  c ∈ Value.closuresOf q.stack ∨ q.machine.Around holds c

/-- the values that an instruction hands on -/
def Flow.values : Flow → List Value
  | .next stack => stack
  | .jump _ stack => stack
  | .exit v stack => v :: stack
  | .enter c arguments stack => .closure c :: (arguments ++ stack)

/-! ## Stores -/

namespace Machine.Around

/-- a cell gets a content -/
theorem put {frame : FrameId} {cell : Nat} {content : Option Value}
    (h : Around holds { m with store := m.store.put frame cell content } c) :
    m.Around holds c ∨ ∃ v, content = some v ∧ c ∈ v.closures := by
  cases h with
  | exported found mem => exact Or.inl (.exported found mem)
  | kept found mem =>
    rcases Store.slot?_put found with heq | hold
    · exact Or.inr ⟨_, heq.symm, mem⟩
    · exact Or.inl (.kept hold mem)
  | called running =>
    have hbefore := running.symm.trans (Store.running?_put _ _ _ _ _)
    exact Or.inl (.called hbefore.symm)
  | held mem => exact Or.inl (.held mem)

theorem withDepth {depth : Nat} (h : Around holds { m with depth } c) : m.Around holds c := by
  cases h with
  | exported found mem => exact .exported found mem
  | kept found mem => exact .kept found mem
  | called running => exact .called running
  | held mem => exact .held mem

/-- a frame is made for the body of a module or for the call of a function, and is filled -/
theorem newFrame {fr : Frame} {slots : List (Cell × Option Value)} (hcells : fr.cells = .empty)
    (h : Around holds { m with store := (m.store.add fr).2.fill m.store.frames.size slots } c) :
    m.Around holds c ∨ fr.running = some c ∨ ∃ cell v, (cell, some v) ∈ slots ∧ c ∈ v.closures := by
  cases h with
  | exported found mem => exact Or.inl (.exported found mem)
  | kept found mem =>
    rcases Store.slot?_newFrame hcells found with ⟨_, cell, hmem, _⟩ | hold
    · exact Or.inr (Or.inr ⟨cell, _, hmem, mem⟩)
    · exact Or.inl (.kept hold mem)
  | @called frame running =>
    by_cases hframe : frame = m.store.frames.size
    · subst hframe
      exact Or.inr (Or.inl (Store.running?_newFrame.symm.trans running))
    · have hbefore : m.store.running? frame = some c := by
        dsimp only at running
        rw [Store.running?_fill] at running
        unfold Store.running? at running ⊢
        rwa [Store.get?_addFrame, if_neg hframe] at running
      exact Or.inl (.called hbefore)
  | held mem => exact Or.inl (.held mem)

end Machine.Around

/-! ## Instructions -/

theorem Operands.mem_of_popN {stack rest : Operands} {count : Nat} {values : List Value}
    (h : stack.popN count = .ok (values, rest)) (hc : c ∈ Value.closuresOf (values ++ rest)) :
    c ∈ Value.closuresOf stack := by
  obtain ⟨v, hv, hmem⟩ := Value.mem_closuresOf.1 hc
  refine Value.mem_closuresOf.2 ⟨v, ?_, hmem⟩
  unfold Operands.popN at h
  split at h
  · cases h
  · cases h
    exact (List.mem_append.1 hv).elim (fun h => List.mem_of_mem_take (List.mem_reverse.1 h)) List.mem_of_mem_drop

/-- an instruction in a frame makes a function, which gets the next identity -/
structure Run.Creates (frame : FrameId) (m : Machine σ) (i : Instruction) (c : Closure) (m' : Machine σ) : Prop where
  instruction : i = .push (.function c.template)
  frame : c.frame = frame
  identity : c.identity = m.store.nextIdentity
  next : m'.store.nextIdentity = m.store.nextIdentity + 1

/-- a function that is around after an instruction was around before, or the instruction makes it -/
theorem Run.Step.around {frame : FrameId} {i : Instruction} {stack : Operands} {flow : Flow}
    (h : Run.Step host frame m i stack flow m') (hhost : host.Passes holds)
    (hc : c ∈ Value.closuresOf flow.values ∨ m'.Around holds c) :
    (c ∈ Value.closuresOf stack ∨ m.Around holds c) ∨ Run.Creates frame m i c m' := by
  -- a value that has no functions, or only some that are around, on operands that are
  have hpushed {v : Value} {rest : Operands} (hc : c ∈ Value.closuresOf (v :: rest) ∨ m.Around holds c)
      (hv : c ∈ v.closures → c ∈ Value.closuresOf stack ∨ m.Around holds c)
      (hrest : c ∈ Value.closuresOf rest → c ∈ Value.closuresOf stack) :
      (c ∈ Value.closuresOf stack ∨ m.Around holds c) ∨ Run.Creates frame m i c m' := by
    refine Or.inl (hc.elim (fun hc => ?_) Or.inr)
    exact (List.mem_append.1 hc).elim hv fun h => Or.inl (hrest h)
  have hbehind {v : Value} {rest : Operands} (h : c ∈ Value.closuresOf rest) : c ∈ Value.closuresOf (v :: rest) :=
    List.mem_append_right _ h
  cases h with
  | halt => exact hpushed hc (fun h => nomatch h) id
  | giveBack => exact Or.inl hc
  | constant value =>
    refine hpushed hc (fun h => ?_) id
    rename_i found v
    cases found <;> cases value <;> cases h
  | function =>
    rcases hc with hc | hc
    · rcases List.mem_append.1 hc with hc | hc
      · obtain rfl := List.mem_singleton.1 hc
        exact Or.inr ⟨rfl, rfl, rfl, rfl⟩
      · exact Or.inl (Or.inl hc)
    · refine Or.inl (Or.inr ?_)
      cases hc with
      | exported found mem => exact .exported found mem
      | kept found mem => exact .kept found mem
      | called running => exact .called running
      | held mem => exact .held mem
  | pop => exact Or.inl (hc.imp_left hbehind)
  | reserve =>
    rcases hc with hc | hc
    · exact Or.inl (Or.inl hc)
    · rcases hc.put with hc | ⟨_, hnone, _⟩
      · exact Or.inl (Or.inr hc)
      · cases hnone
  | load found =>
    refine hpushed hc (fun h => ?_) id
    obtain ⟨holder, hslot⟩ := Store.slot?_of_load found
    exact Or.inr (.kept hslot h)
  | store found =>
    rcases hc with hc | hc
    · exact Or.inl (Or.inl (hbehind hc))
    · rcases hc.put with hc | ⟨w, heq, hc⟩
      · exact Or.inl (Or.inr hc)
      · cases heq
        exact Or.inl (Or.inl (List.mem_append_left _ hc))
  | loadSelf found =>
    refine hpushed hc (fun h => ?_) id
    obtain rfl := List.mem_singleton.1 h
    exact Or.inr (.called found)
  | stay test => exact Or.inl (hc.imp_left hbehind)
  | jump test => exact Or.inl (hc.imp_left hbehind)
  | enter deep given =>
    rcases hc with hc | hc
    · refine Or.inl (Or.inl ?_)
      exact (List.mem_append.1 hc).elim (List.mem_append_left _) fun h => hbehind (Operands.mem_of_popN given h)
    · exact Or.inl (Or.inr hc)
  | @ask count b arguments stack rest v given answer =>
    have hgiven {values : Operands} (hsub : ∀ v ∈ values, v ∈ arguments ++ rest) (h : c ∈ Value.closuresOf values) :
        c ∈ Value.closuresOf (.builtin b :: stack) := by
      obtain ⟨v, hv, hmem⟩ := Value.mem_closuresOf.1 h
      exact hbehind (Operands.mem_of_popN given (Value.mem_closuresOf.2 ⟨v, hsub v hv, hmem⟩))
    have harguments := hgiven fun v hv => List.mem_append_left rest hv
    rcases hc with hc | hc
    · rcases List.mem_append.1 hc with hc | hc
      · exact Or.inl ((hhost.answer _ _ _ _ answer c hc).imp harguments .held)
      · exact Or.inl (Or.inl (hgiven (fun v hv => List.mem_append_right arguments hv) hc))
    · cases hc with
      | exported found mem => exact Or.inl (Or.inr (.exported found mem))
      | kept found mem => exact Or.inl (Or.inr (.kept found mem))
      | called running => exact Or.inl (Or.inr (.called running))
      | held mem => exact Or.inl ((hhost.memory _ _ _ c mem).imp harguments .held)
  | @makeList count items stack rest given =>
    refine Or.inl (hc.imp_left fun hc => Operands.mem_of_popN given ?_)
    obtain ⟨v, hv, hmem⟩ := Value.mem_closuresOf.1 hc
    rcases List.mem_cons.1 hv with rfl | hv
    · obtain ⟨w, hw, hmem⟩ := Value.mem_closuresOf.1 hmem
      exact Value.mem_closuresOf.2 ⟨w, List.mem_append_left _ hw, hmem⟩
    · exact Value.mem_closuresOf.2 ⟨v, List.mem_append_right _ hv, hmem⟩
  | subscript found =>
    refine hpushed hc (fun h => ?_) fun h => hbehind (hbehind h)
    exact Or.inl (hbehind (List.mem_append_left _ (Value.closures_subscript found c h)))
  | loadImport found => exact hpushed hc (fun h => Or.inr (.exported found h)) id
  | binary result =>
    refine hpushed hc (fun h => ?_) fun h => hbehind (hbehind h)
    rw [BinaryOp.apply_closures result] at h
    cases h

namespace Moment

/-- a function that is around after an instruction was around before, or the instruction makes it -/
theorem Does.around {i : Instruction} {flow : Flow} (h : q.Does host i flow m) (hhost : host.Passes holds)
    (hc : c ∈ Value.closuresOf flow.values ∨ m.Around holds c) :
    q.Around holds c ∨ Run.Creates q.frame q.machine i c m := by
  obtain ⟨_, hx⟩ := h
  exact (Run.Step.of_execute hx).around hhost hc

/-- all functions in a call were around before -/
theorem Enters.around {arguments : List Value} {rest : Operands} {inner : FrameId}
    (h : q.Enters host c arguments rest inner m) (hhost : host.Passes holds)
    (hd : d ∈ Value.closuresOf rest ∨ m.Around holds d ∨ d = c) : q.Around holds d := by
  obtain ⟨i, m₁, hdoes, hopen⟩ := h
  have hi : ¬ Run.Creates q.frame q.machine i d m₁ := by
    rintro ⟨rfl, _⟩
    obtain ⟨heq, _⟩ := (Run.Step.of_execute hdoes.2).effect q.place
    cases heq
  have hbefore (hd : d ∈ Value.closuresOf (Flow.enter c arguments rest).values ∨ m₁.Around holds d) :
      q.Around holds d :=
    (hdoes.around hhost hd).resolve_right hi
  have hcallee : d = c → d ∈ Value.closuresOf (Flow.enter c arguments rest).values := by
    rintro rfl
    exact List.mem_append_left _ (List.mem_singleton_self d)
  have hvalue {v : Value} (hv : v ∈ arguments ++ rest) (hd : d ∈ v.closures) :
      d ∈ Value.closuresOf (Flow.enter c arguments rest).values :=
    Value.mem_closuresOf.2 ⟨v, List.mem_cons_of_mem _ hv, hd⟩
  rcases hd with hd | hd | hd
  · obtain ⟨v, hv, hd⟩ := Value.mem_closuresOf.1 hd
    exact hbefore (Or.inl (hvalue (List.mem_append_right _ hv) hd))
  · rw [Run.openCall_eq] at hopen
    cases hopen
    rcases Machine.Around.newFrame rfl hd with hd | heq | ⟨cell, v, hmem, hd⟩
    · exact hbefore (Or.inr hd)
    · exact hbefore (Or.inl (hcallee (Option.some.inj heq).symm))
    · obtain ⟨⟨_, w⟩, hzip, heq⟩ := List.mem_map.1 hmem
      cases heq
      exact hbefore (Or.inl (hvalue (List.mem_append_left _ (List.of_mem_zip hzip).2) hd))
  · exact hbefore (Or.inl (hcallee hd))

/-- all functions that an activation leaves were around at its end -/
theorem Leaves.around {v : Value} {left : Operands} (h : last.Leaves host v left m) (hhost : host.Passes holds)
    (hc : c ∈ v.closures ∨ m.Around holds c) : last.Around holds c := by
  obtain ⟨_, rfl, _, rfl⟩ | ⟨i, hdoes⟩ := h
  · exact hc.elim (fun h => nomatch h) Or.inr
  · have hi : ¬ Run.Creates last.frame last.machine i c m := by
      rintro ⟨rfl, _⟩
      obtain ⟨heq | heq, _⟩ := (Run.Step.of_execute hdoes.2).effect last.place
      · cases heq
      · cases heq
    exact (hdoes.around hhost (hc.imp_left (List.mem_append_left _))).resolve_right hi

end Moment

/-! ## Bodies of modules -/

/-- at the start of a run there are no functions around -/
theorem Machine.not_around_new (hhost : host.Conserves holds) {memory : σ} (hmemory : holds memory = []) (limit : Nat) :
    ¬ (Machine.new host limit memory).Around holds c := by
  have hempty : (Machine.new host limit memory).store = .empty := hhost.store
  intro hc
  cases hc with
  | exported found mem => cases found
  | kept found mem =>
    rw [hempty] at found
    cases found
  | called running =>
    rw [hempty] at running
    cases running
  | held mem =>
    rw [show holds (Machine.new host limit memory).memory = [] from hmemory] at mem
    cases mem

/-- all functions that are around where a body starts were around before -/
theorem Moment.around_started {t : Template} (h : (Moment.started t m).Around holds c) : m.Around holds c := by
  rcases h with h | h
  · cases h
  · have hfilled : Machine.Around holds { m with store := m.store.newRoot.2.fill m.store.frames.size [] } c := h
    rcases hfilled.newFrame rfl with h | hnone | ⟨_, _, hmem, _⟩
    · exact h
    · cases hnone
    · cases hmem

namespace Machine.Around

/-- registering exports brings no functions about but those in the exports -/
theorem register {module : String} {exports : Exports} (h : Around holds (m.register module exports) c) :
    m.Around holds c ∨ ∃ name v, exports.find? name = some v ∧ c ∈ v.closures := by
  cases h with
  | @exported other name v found mem =>
    change ((m.modules.insert module exports).find? other).bind (fun exports => exports.find? name) = some v at found
    rw [Table.find?_insert] at found
    split at found
    · exact Or.inr ⟨name, v, found, mem⟩
    · exact Or.inl (.exported found mem)
  | kept found mem => exact Or.inl (.kept found mem)
  | called running => exact Or.inl (.called running)
  | held mem => exact Or.inl (.held mem)

/-- a native module has no functions of the program -/
theorem registerNative {native : NativeModule} (h : Around holds (m.registerNative native) c) : m.Around holds c := by
  obtain h | ⟨name, v, hv, hmem⟩ := h.register
  · exact h
  · obtain ⟨b, _, heq⟩ := List.mem_map.1 (Table.mem_of_find?_ofList hv)
    cases heq
    cases hmem

/-- the exports of a module whose body has ended are around already -/
theorem collected {scope : Option Scope} {frame : FrameId} {types : List (String × Ty)} {module : String}
    {exports : Exports} (h : Around holds (m.register module exports) c)
    (hcollect : Toolchain.collect scope frame types .empty m = .ok exports) : m.Around holds c := by
  obtain h | ⟨name, v, hv, hmem⟩ := h.register
  · exact h
  · obtain hnone | ⟨holder, cell, hslot⟩ := Direct.slot?_of_collect hcollect hv
    · cases hnone
    · exact .kept hslot hmem

end Machine.Around

end TypedScript
