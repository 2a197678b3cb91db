/-
Frames mirror scopes. While the code of a body runs, its frame holds the parameters of the body's scope and the
variables whose cells have been made, and the frames around it hold, level by level, the variables of the scopes around
that scope. Every function that is around was made over a frame that mirrors the scope its literal stands in, wherever
it has got to since; so the frame of a call mirrors the scope of the function's body, whoever calls the function.

- `Moment.Level`: what the frames of a moment hold, where its template was laid down for a scope.
- `mirrored_lasting`: where calls have enough arguments, every step of a run keeps frames mirroring scopes.
-/
import TypedScript.Proofs.Machine.Around
import TypedScript.Proofs.Machine.Chains

namespace TypedScript

open Compile (Job)

variable {σ : Type} {holds : σ → List Closure} {host : Host σ} {p : Program} {m m' : Machine σ} {q q' : Moment σ}
  {job : Job} {scope : ScopeId} {i : Instruction} {flow : Flow} {c : Closure}

/-! ## Stores -/

/-- the frame around the frame of a call is the one that the called function was made over, and there is none around the
frame of a module's body -/
def Store.Calls (s : Store) : Prop := ∀ i < s.frames.size, s.parent? i = (s.running? i).map Closure.frame

/-- a function was made from the template of a literal, over a frame that mirrors the scopes around the literal -/
def Program.Captures (p : Program) (s : Store) (c : Closure) : Prop :=
  ∃ m ∈ p.modules, ∃ inner scope, Job.Lays ⟨p, m⟩ inner c.template ∧ p.arena.parent? inner = some scope ∧
    s.Mirrors p.arena (s.chain c.frame) (p.arena.chain scope)

theorem Store.Calls.grows {s s' : Store} (h : s.Calls) (hgrows : s.Grows s')
    (hsize : s'.frames.size = s.frames.size) : s'.Calls := by
  intro i hi
  have hi' : i < s.frames.size := hsize ▸ hi
  rw [hgrows.parent i hi', hgrows.running i hi']
  exact h i hi'

/-- a new frame is that of a call, or of a module's body -/
theorem Store.Calls.newFrame {s : Store} (h : s.Calls) {fr : Frame Template}
    (hcall : fr.parent = fr.running.map Closure.frame)
    (haround : ∀ around, fr.parent = some around → around < s.frames.size) (slots : List (Cell × Option Value)) :
    ((s.add fr).2.fill (s.add fr).1 slots).Calls := by
  intro i hi
  have hgrows := Store.grows_newFrame s fr slots
  rw [Store.size_fill] at hi
  have hlast : i < s.frames.size + 1 := by
    rw [← Array.size_push fr]
    exact hi
  rcases Nat.lt_succ_iff_lt_or_eq.1 hlast with hold | rfl
  · rw [hgrows.parent i hold, hgrows.running i hold]
    exact h i hold
  · rw [Store.parent?_newFrame haround, Store.running?_newFrame]
    exact hcall

theorem Program.Captures.made {s : Store} (h : p.Captures s c) : c.frame < s.frames.size := by
  obtain ⟨_, _, _, _, _, _, hmirrors⟩ := h
  exact hmirrors.made

/-- the frames that a function was made over go on mirroring scopes, if the one that changes came later -/
theorem Program.Captures.keeps {s s' : Store} {frame : FrameId} (h : p.Captures s c) (hkeeps : Store.Keeps frame s s')
    (hlt : c.frame < frame) : p.Captures s' c := by
  obtain ⟨m, hm, inner, scope, hlays, hparent, hmirrors⟩ := h
  exact ⟨m, hm, inner, scope, hlays, hparent, hkeeps.mirrors_chain hlt hmirrors⟩

/-- an instruction that makes no cell adds no frame either, and takes nothing away -/
theorem Run.Step.grows {frame : FrameId} {stack : Operands} (h : Run.Step host frame m i stack flow m')
    (hi : ∀ cell, i ≠ .reserve cell) :
    m.store.Grows m'.store ∧ m'.store.frames.size = m.store.frames.size := by
  cases h with
  | function => exact ⟨.of_get? (Nat.le_refl _) fun _ _ => rfl, rfl⟩
  | reserve => exact absurd rfl (hi _)
  | store found =>
    obtain ⟨_, hslot⟩ := Store.holder?_some found
    exact ⟨.put hslot _, Store.size_put _ _ _ _⟩
  | _ => exact ⟨.refl _, rfl⟩

namespace Moment

/-! ## Levels -/

/-- the frame of a moment holds the parameters of its template's scope and the variables whose cells are made by now,
and the frames around it mirror the scopes around that scope -/
structure Level (job : Job) (scope : ScopeId) (q : Moment σ) : Prop where
  laid : job.Lays scope q.template
  own : q.machine.store.Holds q.frame
    (Compile.parameterCells job scope ++ (Compile.localCells job scope).take q.place)
  around : q.machine.store.Mirrors job.program.arena (q.machine.store.chain q.frame).tail
    (job.program.arena.chain scope).tail

/-- an instruction makes the cell of the variable that comes next, or all cells are made and it asks for no more than
what the scope has -/
theorem Level.instruction (h : q.Level job scope) (hordered : job.program.arena.Ordered)
    (hi : q.instruction? = some i) :
    (∃ cell, (Compile.localCells job scope)[q.place]? = some cell ∧ i = .reserve cell) ∨
      (Compile.localCells job scope).length ≤ q.place ∧ i.Reaches job.program.arena scope := by
  obtain ⟨_, code, hcode, hscoped⟩ := h.laid.code_scoped hordered
  unfold instruction? at hi
  rw [hcode, Compile.reservations_eq] at hi
  by_cases hlt : q.place < (Compile.localCells job scope).length
  · rw [List.getElem?_append_left (by rwa [List.length_map]), List.getElem?_map] at hi
    obtain ⟨cell, hcell, rfl⟩ := Option.map_eq_some_iff.1 hi
    exact Or.inl ⟨cell, hcell, rfl⟩
  · have hle := Nat.le_of_not_lt hlt
    rw [List.getElem?_append_right (by rwa [List.length_map])] at hi
    exact Or.inr ⟨hle, hscoped.reaches i (List.mem_of_getElem? hi)⟩

/-- when all cells are made, the frames of a moment mirror the scopes of its template -/
theorem Level.full (h : q.Level job scope) (hordered : job.program.arena.Ordered)
    (hplace : (Compile.localCells job scope).length ≤ q.place) :
    q.machine.store.Mirrors job.program.arena (q.machine.store.chain q.frame) (job.program.arena.chain scope) := by
  have hchain : job.program.arena.chain scope = scope :: (job.program.arena.chain scope).tail := by
    rw [Arena.chain_eq hordered h.laid.lt]
    rfl
  have hown := h.own
  rw [List.take_of_length_le hplace, Compile.parameterCells_append_localCells] at hown
  rw [Store.chain_eq_cons, hchain]
  exact .cons hown h.around

/-- only the cells of the body are made in front of its other code -/
theorem Level.behind (h : q.Level job scope) (hordered : job.program.arena.Ordered) (hi : q.instruction? = some i)
    (hne : ∀ cell, i ≠ .reserve cell) : (Compile.localCells job scope).length ≤ q.place := by
  obtain ⟨cell, _, rfl⟩ | ⟨hle, _⟩ := h.instruction hordered hi
  · exact absurd rfl (hne cell)
  · exact hle

/-- an activation ends behind the cells of its body -/
theorem Level.behind_of_leaves (h : q.Level job scope) (hordered : job.program.arena.Ordered) {v : Value}
    {left : Operands} (hleaves : q.Leaves host v left m) : (Compile.localCells job scope).length ≤ q.place := by
  obtain ⟨hnone, _⟩ | ⟨i, hi, hx⟩ := hleaves
  · obtain ⟨_, code, hcode, _⟩ := h.laid.code_scoped hordered
    have hlength := List.getElem?_eq_none_iff.1 hnone
    rw [hcode, Compile.reservations_eq, List.length_append, List.length_map] at hlength
    omega
  · refine h.behind hordered hi fun cell heq => ?_
    obtain ⟨rfl | rfl, _⟩ := (Run.Step.of_execute hx).effect q.place
    · cases heq
    · cases heq

/-- behind the cells of the body, a level stays what it is while the store changes elsewhere -/
theorem Level.keeps (h : q.Level job scope) (hbehind : (Compile.localCells job scope).length ≤ q.place)
    (hkeeps : Store.Keeps q.machine.store.frames.size q.machine.store m.store) {place : Nat} (hplace : q.place ≤ place)
    (stack : Operands) : (q.onward place stack m).Level job scope := by
  refine ⟨h.laid, ?_, hkeeps.mirrors_around h.own.made (Nat.le_of_lt h.own.made) h.around⟩
  · have hown := h.own
    rw [List.take_of_length_le hbehind] at hown
    change m.store.Holds q.frame (_ ++ (Compile.localCells job scope).take place)
    rw [List.take_of_length_le (Nat.le_trans hbehind hplace)]
    exact hkeeps.holds (Nat.ne_of_lt h.own.made) hown

/-- the cell of the next variable is made -/
theorem Level.reserved (h : q.Level job scope) (hordered : job.program.arena.Ordered) {cell : Cell}
    (hi : q.instruction? = some (.reserve cell)) (stack : Operands) :
    q.place < (Compile.localCells job scope).length ∧
      (q.onward (q.place + 1) stack { q.machine with store := q.machine.store.reserve q.frame cell }).Level
      job scope := by
  have hcell : (Compile.localCells job scope)[q.place]? = some cell := by
    obtain ⟨_, hcell, heq⟩ | ⟨_, hreaches⟩ := h.instruction hordered hi
    · cases heq
      exact hcell
    · cases hreaches
  have hkeeps := Store.keeps_reserve q.machine.store h.own.made cell
  refine ⟨(List.getElem?_eq_some_iff.1 hcell).1, h.laid, ?_, hkeeps.mirrors_around h.own.made (Nat.le_refl _) h.around⟩
  have hown := h.own.reserve cell
  rw [List.append_assoc] at hown
  change (q.machine.store.reserve q.frame cell).Holds q.frame (_ ++ (Compile.localCells job scope).take (q.place + 1))
  rw [List.take_add_one, hcell]
  exact hown

/-- the body of a module starts in a frame of its own, around which there is none -/
theorem level_started {t : Template} (hordered : job.program.arena.Ordered)
    (hlays : job.Lays job.module.scopes.global t)
    (hparameters : Compile.parameterCells job job.module.scopes.global = [])
    (hglobal : job.program.arena.isGlobal job.module.scopes.global = true) (before : Machine σ) :
    (started t before).Level job job.module.scopes.global := by
  have hmade (around : FrameId) (heq : none = some around) : around < before.store.frames.size := nomatch heq
  have htop : before.store.newRoot.2.parent? before.store.frames.size = none :=
    @Store.parent?_newFrame _ before.store _ [] hmade
  refine ⟨hlays, ?_, ?_⟩
  · rw [hparameters]
    exact Store.holds_newFrame before.store rfl []
  · change before.store.newRoot.2.Mirrors job.program.arena (before.store.newRoot.2.chain before.store.frames.size).tail
      (job.program.arena.chain job.module.scopes.global).tail
    rw [Store.chain_of_top htop, Arena.chain_of_isGlobal hordered hglobal]
    exact .nil

/-! ## The invariant -/

/-- frames mirror scopes at a moment: its own, and those of every function that is around -/
structure Mirrored (p : Program) (holds : σ → List Closure) (q : Moment σ) : Prop where
  level : ∃ m ∈ p.modules, ∃ scope, q.Level ⟨p, m⟩ scope ∧
    -- no function can be made over a frame that lacks cells
    (q.place < (Compile.localCells ⟨p, m⟩ scope).length → ∀ c, q.Around holds c → c.frame < q.frame)
  captured : ∀ c, q.Around holds c → p.Captures q.machine.store c
  calls : q.machine.store.Calls

/-- a later moment of the same activation, since when no other frame that was there has got new cells -/
structure Stays (p : Program) (q q' : Moment σ) : Prop where
  frame : q'.frame = q.frame
  store : Store.Keeps q.frame q.machine.store q'.machine.store
  level : ∀ m scope, q.Level ⟨p, m⟩ scope → q'.Level ⟨p, m⟩ scope

/-- calls have an argument for each parameter -/
def Given (host : Host σ) (q : Moment σ) : Prop :=
  ∀ i c arguments rest m, q.Does host i (.enter c arguments rest) m → c.template.parameters.length ≤ arguments.length

namespace Mirrored

/-- an instruction behind the cells of the body -/
theorem later (h : q.Mirrored p holds) (hordered : p.arena.Ordered) (hhost : host.Conserves holds)
    (hdoes : q.Does host i flow m) (hi : ∀ cell, i ≠ .reserve cell) {place : Nat} (hplace : q.place < place)
    {stack : Operands} (hstack : ∀ c ∈ Value.closuresOf stack, c ∈ Value.closuresOf flow.values) :
    (q.onward place stack m).Mirrored p holds ∧ q.Stays p (q.onward place stack m) := by
  obtain ⟨hgrows, hsize⟩ := (Run.Step.of_execute hdoes.2).grows hi
  have hkeeps := hgrows.keeps q.machine.store.frames.size
  have hlevel (module : LinkedModule) (scope : ScopeId) (h : q.Level ⟨p, module⟩ scope) :
      (q.onward place stack m).Level ⟨p, module⟩ scope :=
    h.keeps (h.behind hordered hdoes.1 hi) hkeeps (Nat.le_of_lt hplace) stack
  obtain ⟨module, hmodule, scope, hhere, _⟩ := h.level
  have hbehind := hhere.behind hordered hdoes.1 hi
  refine ⟨⟨⟨module, hmodule, scope, hlevel _ _ hhere, fun hlt => ?_⟩, fun c hc => ?_, h.calls.grows hgrows hsize⟩,
    rfl, hgrows.keeps _, hlevel⟩
  · exact absurd (Nat.lt_trans hplace hlt) (Nat.not_lt.2 hbehind)
  · rcases hdoes.around hhost.passes (hc.imp_left (hstack c)) with hc | ⟨rfl, hframe, _, _⟩
    · exact (h.captured c hc).keeps hkeeps (h.captured c hc).made
    · -- a function is made, over the frame of the body
      obtain ⟨inner, hparent, hlays⟩ := hhere.laid.nested hordered (Template.mem_pushed (List.mem_of_getElem? hdoes.1))
      refine ⟨module, hmodule, inner, scope, hlays, hparent, ?_⟩
      rw [hframe]
      exact hkeeps.mirrors_chain hhere.own.made (hhere.full hordered hbehind)

/-- the cell of a variable is made -/
theorem reserved (h : q.Mirrored p holds) (hordered : p.arena.Ordered) (hhost : host.Conserves holds) {cell : Cell}
    {stack : Operands} (hdoes : q.Does host (.reserve cell) (.next stack) m) :
    (q.onward (q.place + 1) stack m).Mirrored p holds ∧ q.Stays p (q.onward (q.place + 1) stack m) := by
  have haround {c : Closure} (hc : (q.onward (q.place + 1) stack m).Around holds c) : q.Around holds c := by
    obtain hc | ⟨heq, _⟩ := hdoes.around hhost.passes hc
    · exact hc
    · cases heq
  obtain ⟨module, hmodule, scope, hhere, hearly⟩ := h.level
  obtain rfl := (Run.Step.of_execute hdoes.2).of_reserve
  obtain ⟨hlt, hlater⟩ := hhere.reserved hordered hdoes.1 stack
  have hkeeps := Store.keeps_reserve q.machine.store hhere.own.made cell
  refine ⟨⟨⟨module, hmodule, scope, hlater, fun _ c hc => hearly hlt c (haround hc)⟩, fun c hc => ?_, fun j hj => ?_⟩,
    rfl, hkeeps, fun _ _ hlevel => (hlevel.reserved hordered hdoes.1 stack).2⟩
  · exact (h.captured c (haround hc)).keeps hkeeps (hearly hlt c (haround hc))
  · change j < (q.machine.store.put q.frame cell.id none).frames.size at hj
    rw [Store.size_put] at hj
    change (q.machine.store.put q.frame cell.id none).parent? j =
      ((q.machine.store.put q.frame cell.id none).running? j).map Closure.frame
    rw [Store.parent?_put, Store.running?_put]
    exact h.calls j hj

end Mirrored

/-! ## Calls -/

namespace Mirrored

/-- a call starts in a frame that mirrors the scope of the function's body -/
theorem enter (h : q.Mirrored p holds) (hordered : p.arena.Ordered) (hhost : host.Conserves holds)
    (hgiven : q.Given host) {arguments : List Value} {rest : Operands} {inner : FrameId}
    (henters : q.Enters host c arguments rest inner m) : (entered c inner m).Mirrored p holds := by
  obtain ⟨module, hmodule, x, scope, hlays, hparent, hmirrors⟩ :=
    h.captured c (henters.around hhost.passes (Or.inr (Or.inr rfl)))
  obtain ⟨hparameters, _⟩ := hlays.code_scoped hordered
  have henough : c.template.parameters.length ≤ arguments.length := by
    obtain ⟨i, m₁, hdoes, _⟩ := henters
    exact hgiven i c arguments rest m₁ hdoes
  have haround {d : Closure} (hd : (entered c inner m).Around holds d) : q.Around holds d :=
    henters.around hhost.passes (Or.inr (Or.inl (hd.elim (fun h => nomatch h) Machine.Around.withDepth)))
  obtain ⟨rfl, rfl⟩ := henters.opened
  let before := q.machine.store
  let slots : List (Cell × Option Value) := (c.template.parameters.zip arguments).map fun p => (p.1, some p.2)
  let after := (before.newCall c).2.fill before.frames.size slots
  have hkeeps : Store.Keeps before.frames.size before after := (Store.grows_newFrame before _ slots).keeps _
  have hmade (around : FrameId) (heq : some c.frame = some around) : around < before.frames.size := by
    cases heq
    exact hmirrors.made
  have htop : after.parent? before.frames.size = some c.frame := Store.parent?_newFrame hmade
  refine ⟨⟨module, hmodule, x, ⟨hlays, ?_, ?_⟩, fun _ d hd => (h.captured d (haround hd)).made⟩, fun d hd => ?_,
    h.calls.newFrame rfl hmade slots⟩
  · change after.Holds before.frames.size (_ ++ (Compile.localCells ⟨p, module⟩ x).take 0)
    have hown : after.Holds before.frames.size (slots.map Prod.fst) := Store.holds_newFrame before rfl slots
    rw [List.map_map, show Prod.fst ∘ (fun p : Cell × Value => (p.1, some p.2)) = Prod.fst from rfl,
      List.map_fst_zip henough, hparameters] at hown
    rwa [List.take_zero, List.append_nil]
  · change after.Mirrors p.arena (after.chain before.frames.size).tail (p.arena.chain x).tail
    rw [Store.chain_of_parent? htop, Arena.chain_of_parent? hordered hparent]
    exact hkeeps.mirrors_chain hmirrors.made hmirrors
  · exact (h.captured d (haround hd)).keeps hkeeps (h.captured d (haround hd)).made

/-- a body goes on behind a call as it was before the call -/
theorem back (h : q.Mirrored p holds) (hordered : p.arena.Ordered) (hhost : host.Conserves holds)
    {arguments : List Value} {rest left : Operands} {inner : FrameId} {last : Moment σ} {v : Value}
    (henters : q.Enters host c arguments rest inner m) (hlast : last.Mirrored p holds)
    (hstays : (entered c inner m).Stays p last) (hleaves : last.Leaves host v left m') :
    (q.returned v rest m').Mirrored p holds ∧ q.Stays p (q.returned v rest m') := by
  have haround {d : Closure} (hd : (q.returned v rest m').Around holds d) : q.Around holds d ∨ last.Around holds d := by
    rcases hd with hd | hd
    · rcases List.mem_append.1 hd with hd | hd
      · exact Or.inr (hleaves.around hhost.passes (Or.inl hd))
      · exact Or.inl (henters.around hhost.passes (Or.inl hd))
    · exact Or.inr (hleaves.around hhost.passes (Or.inr hd.withDepth))
  have hbehind {module : LinkedModule} {scope : ScopeId} (h : q.Level ⟨p, module⟩ scope) :
      (Compile.localCells ⟨p, module⟩ scope).length ≤ q.place := by
    obtain ⟨i, m₁, hdoes, _⟩ := henters
    obtain ⟨rfl, _⟩ := (Run.Step.of_execute hdoes.2).effect q.place
    exact h.behind hordered hdoes.1 fun cell heq => nomatch heq
  obtain rfl := hleaves.machine_eq
  obtain ⟨rfl, hopened⟩ := henters.opened
  -- no frame that was there before the call has got new cells
  have hkeeps : Store.Keeps q.machine.store.frames.size q.machine.store last.machine.store := by
    refine Store.Keeps.trans ?_ hstays.store
    rw [hopened]
    exact (Store.grows_newFrame q.machine.store _ _).keeps _
  have hlevel (module : LinkedModule) (scope : ScopeId) (h : q.Level ⟨p, module⟩ scope) :
      (q.returned v rest last.machine).Level ⟨p, module⟩ scope :=
    h.keeps (m := { last.machine with depth := last.machine.depth - 1 }) (hbehind h) hkeeps (Nat.le_succ _) (v :: rest)
  obtain ⟨module, hmodule, scope, hhere, _⟩ := h.level
  refine ⟨⟨⟨module, hmodule, scope, hlevel _ _ hhere, fun hlt => ?_⟩, fun d hd => ?_, hlast.calls⟩,
    rfl, hkeeps.of_new (Nat.le_refl _) _, hlevel⟩
  · exact absurd (Nat.lt_trans (Nat.lt_succ_self _) hlt) (Nat.not_lt.2 (hbehind hhere))
  · rcases haround hd with hd | hd
    · exact (h.captured d hd).keeps hkeeps (h.captured d hd).made
    · exact hlast.captured d hd

end Mirrored

end Moment

/-- where calls have enough arguments, every step of a run keeps frames mirroring scopes -/
theorem mirrored_lasting (hordered : p.arena.Ordered) (hhost : host.Conserves holds) :
    Lasting host (fun q => q.Given host) (fun _ q => q.Mirrored p holds) (Moment.Stays p) where
  refl q := ⟨rfl, .refl _ _, fun _ _ h => h⟩
  trans {q q' q''} h h' := by
    have hstore := h'.store
    rw [h.frame] at hstore
    exact ⟨h'.frame.trans h.frame, h.store.trans hstore,
      fun m scope hlevel => h'.level m scope (h.level m scope hlevel)⟩
  next {depth q i stack m} _ h hdoes := by
    by_cases hi : ∃ cell, i = .reserve cell
    · obtain ⟨cell, rfl⟩ := hi
      exact h.reserved hordered hhost hdoes
    · exact h.later hordered hhost hdoes (fun cell heq => hi ⟨cell, heq⟩) (Nat.lt_succ_self _) fun _ hc => hc
  jump {depth q i target stack m} _ h hdoes := by
    obtain ⟨rfl, _⟩ := (Run.Step.of_execute hdoes.2).effect q.place
    obtain ⟨module, _, scope, hlevel, _⟩ := h.level
    obtain ⟨isModule, f, hf⟩ := hlevel.laid.exists_function
    obtain ⟨hjumps, _⟩ := f.forward isModule
    obtain ⟨hlt, _⟩ := hjumps q.place target (hf ▸ hdoes.1)
    exact h.later hordered hhost hdoes (fun cell heq => nomatch heq) hlt fun _ hc => hc
  enter hgiven h henters := h.enter hordered hhost hgiven henters
  back _ h henters _ hlast hstays hleaves := h.back hordered hhost henters hlast hstays hleaves

end TypedScript
