/-
Variables with values, moment by moment. A cell that is made is empty until something is stored in it. Where templates
are noted with the variables that are sure to have a value, these have one whenever a run comes to the noted place: in
the frame of the body or in a frame around it. Every function that is around was made where the variables that its
template counts on had values, over a frame in which no more cells have been made since; so a call of it finds them with
values, whoever makes the call and whenever. A parameter has a value if it has a cell.

- `Store.Settled`: a variable that has a value wherever a frame finds its cell.
- `Moment.Assigned`: what is so at a moment, for the body that runs and for the functions around.
- `assigned_lasting`: every step of a run keeps it so.
- `Moment.Assigned.reads`: what is read has a value.
-/
import TypedScript.Proofs.Bound.Assigned
import TypedScript.Proofs.Machine.Activations

namespace TypedScript

variable {σ : Type} {holds : σ → List Closure} {host : Host σ} {p : Program} {m m' : Machine σ} {q last : Moment σ}
  {t : Template} {c : Closure} {i : Instruction} {flow : Flow} {stack : Operands} {ready : List Cell}

/-! ## Stores -/

namespace Store

variable {φ : Type} {s s' : Store φ} {frame holder around : FrameId} {id : Nat} {v : Value φ}

/-- the cell with a number that is found from a frame, if there is one, has a value -/
def Settled (s : Store φ) (frame : FrameId) (id : Nat) : Prop :=
  ∀ holder, s.holder? frame id = some holder → ∃ v, s.slot? holder id = some (some v)

/-- where no cell with the number is empty -/
theorem settled_of_ne (h : ∀ holder, s.slot? holder id ≠ some none) (frame : FrameId) : s.Settled frame id := by
  intro holder hholder
  obtain ⟨_, hslot⟩ := holder?_some hholder
  obtain ⟨content, hcontent⟩ := Option.isSome_iff_exists.1 hslot
  cases content with
  | none => exact absurd hcontent (h holder)
  | some v => exact ⟨v, hcontent⟩

theorem Grows.settled (h : Grows s s') (hframe : frame < s.frames.size) (hs : s.Settled frame id) :
    s'.Settled frame id := by
  intro holder hholder
  rw [h.holder? hframe] at hholder
  obtain ⟨v, hv⟩ := hs holder hholder
  exact h.kept holder id v hv

/-- what was found gets a value -/
theorem settled_put (hframe : frame < s.frames.size) (found : s.holder? frame id = some holder) :
    (s.put holder id (some v)).Settled frame id := by
  obtain ⟨_, hslot⟩ := holder?_some found
  obtain ⟨content, hcontent⟩ := Option.isSome_iff_exists.1 hslot
  intro other hother
  rw [(Grows.put hslot v).holder? hframe, found] at hother
  cases hother
  exact ⟨v, by rw [slot?_put_eq (lt_of_slot? hcontent), if_pos ⟨rfl, rfl⟩]⟩

/-- the cell that is made is another one, or it is made in a frame that is not in reach -/
theorem settled_reserve (hframe : frame < s.frames.size) {i : FrameId} (hi : i < s.frames.size) {cell : Cell}
    (hapart : i < frame ∨ cell.id ≠ id) (hs : s.Settled i id) : (s.reserve frame cell).Settled i id := by
  have hsame {j : FrameId} (hj : j ≤ i) : (s.reserve frame cell).slot? j id = s.slot? j id := by
    rw [reserve, slot?_put_eq hframe]
    refine if_neg fun hmade => ?_
    rcases hapart with hlt | hne
    · exact Nat.not_lt.2 hj (hmade.1 ▸ hlt)
    · exact hne hmade.2
  intro holder hholder
  have hfound : s.holder? i id = some holder := by
    rw [holder?_eq_find?, (keeps_reserve s hframe cell).chain hi] at hholder
    rw [← List.head?_filter] at hholder
    rw [holder?_eq_find?, ← List.head?_filter, ← hholder]
    refine congrArg List.head? (List.filter_congr fun j hj => ?_)
    rw [hsame (le_of_mem_chain hj)]
  obtain ⟨v, hv⟩ := hs holder hfound
  exact ⟨v, (hsame (holder?_some hfound).1).trans hv⟩

/-- what has a value in the frame around a new one has a value in the new one, whose own cells are filled -/
theorem settled_newFrame {fr : Frame φ} (hcells : fr.cells = .empty) (hparent : fr.parent = some around)
    (haround : around < s.frames.size) (hs : s.Settled around id) {slots : List (Cell × Option (Value φ))}
    (hslots : ∀ cell, (cell, none) ∉ slots) : ((s.add fr).2.fill s.frames.size slots).Settled s.frames.size id := by
  have hgrows : Grows s ((s.add fr).2.fill s.frames.size slots) := grows_newFrame s fr slots
  have hin (other : FrameId) (h : fr.parent = some other) : other < s.frames.size := by
    rw [hparent] at h
    exact Option.some.inj h ▸ haround
  have htop : ((s.add fr).2.fill s.frames.size slots).parent? s.frames.size = some around :=
    (parent?_newFrame hin).trans hparent
  intro holder hholder
  rw [holder?_eq] at hholder
  split at hholder
  · next hown =>
    obtain rfl := Option.some.inj hholder
    obtain ⟨content, hcontent⟩ := Option.isSome_iff_exists.1 hown
    obtain ⟨_, cell, hmem, _⟩ | hold := slot?_newFrame hcells hcontent
    · cases content with
      | none => exact absurd hmem (hslots cell)
      | some v => exact ⟨v, hcontent⟩
    · exact absurd (lt_of_slot? hold) (Nat.lt_irrefl _)
  · rw [htop] at hholder
    exact hgrows.settled haround hs holder hholder

end Store

/-! ## Steps -/

namespace Run.Step

variable {frame j : FrameId} {id : Nat}

/-- a variable keeps having a value, unless its cell is made anew in reach -/
theorem settled (h : Step host frame m i stack flow m') (hframe : frame < m.store.frames.size)
    (hj : j < m.store.frames.size) (hapart : ∀ cell, i = .reserve cell → j < frame ∨ cell.id ≠ id)
    (hs : m.store.Settled j id) : m'.store.Settled j id := by
  by_cases hi : ∃ cell, i = .reserve cell
  · obtain ⟨cell, rfl⟩ := hi
    obtain rfl := h.of_reserve
    exact Store.settled_reserve hframe hj (hapart cell rfl) hs
  · exact (h.grows fun cell heq => hi ⟨cell, heq⟩).1.settled hj hs

/-- a cell that is empty was empty before, or it has just been made -/
theorem empty_before (h : Step host frame m i stack flow m') (hframe : frame < m.store.frames.size)
    (hslot : m'.store.slot? j id = some none) :
    m.store.slot? j id = some none ∨ ∃ cell, i = .reserve cell ∧ cell.id = id := by
  cases h with
  | reserve =>
    rw [Store.reserve, Store.slot?_put_eq hframe] at hslot
    split at hslot
    · next heq => exact Or.inr ⟨_, rfl, heq.2⟩
    · exact Or.inl hslot
  | store found =>
    obtain heq | hold := Store.slot?_put hslot
    · cases heq
    · exact Or.inl hold
  | _ => exact Or.inl hslot

end Run.Step

/-! ## What is so at a moment -/

/-- a template of the program makes the cell with the number -/
def Program.Reserves (p : Program) (id : Nat) : Prop := ∃ t, p.Makes t ∧ ∃ cell, .reserve cell ∈ t.code ∧ cell.id = id

/-- no template of the program makes the cell of a parameter -/
def Program.SparesParameters (p : Program) : Prop := ∀ t, p.Makes t → ∀ cell ∈ t.parameters, ¬ p.Reserves cell.id

/-- a function counts on variables that have values in reach of the frame that it was made over -/
structure Program.Covers (p : Program) (s : Store) (c : Closure) : Prop where
  makes : p.Makes c.template
  made : c.frame < s.frames.size
  ready : ∃ ready, c.template.Sure ready ∧ ∀ cell ∈ ready, s.Settled c.frame cell.id

theorem Program.Covers.grows {s s' : Store} (h : p.Covers s c) (hgrows : s.Grows s') : p.Covers s' c := by
  obtain ⟨ready, hsure, hready⟩ := h.ready
  exact ⟨h.makes, Nat.lt_of_lt_of_le h.made hgrows.size, ready, hsure,
    fun cell hcell => hgrows.settled h.made (hready cell hcell)⟩

/-- all functions around count on variables that have values, and no cells are empty but those that templates make -/
structure Machine.Assigned (p : Program) (holds : σ → List Closure) (m : Machine σ) : Prop where
  covered : ∀ c, m.Around holds c → p.Covers m.store c
  empty : ∀ frame id, m.store.slot? frame id = some none → p.Reserves id

namespace Moment

/-- the places of the body are noted: the variables with which the moment's own place is noted have values; and while
cells are being made, no function has been made over their frame -/
structure Noted (holds : σ → List Closure) (q : Moment σ) (notes : Nat → Readiness) : Prop where
  suits : ∀ k i, q.template.code[k]? = some i → Code.Suits assigning notes k q.template.code.length i
  ready : ∀ cell ∈ (notes q.place).ready, q.machine.store.Settled q.frame cell.id
  making : (notes q.place).making = true → ∀ c, q.Around holds c → c.frame < q.frame

structure Assigned (p : Program) (holds : σ → List Closure) (q : Moment σ) : Prop where
  makes : p.Makes q.template
  made : q.frame < q.machine.store.frames.size
  notes : ∃ notes, q.Noted holds notes
  covered : ∀ c, q.Around holds c → p.Covers q.machine.store c
  empty : ∀ frame id, q.machine.store.slot? frame id = some none → p.Reserves id

namespace Assigned

/-- what is read has a value -/
theorem reads (h : q.Assigned p holds) {cell : Cell} (hi : q.instruction? = some (.load cell)) :
    q.machine.store.Settled q.frame cell.id := by
  obtain ⟨notes, hnoted⟩ := h.notes
  have hasks := (hnoted.suits _ _ hi).here
  exact hnoted.ready cell hasks

/-- so no instruction finds a cell empty -/
theorem faultless (h : q.Assigned p holds) (id : Nat) (name : String) :
    ¬ q.Faults host (.uninitialisedCell id name) := by
  rintro ⟨i, m, hi, hx⟩
  obtain ⟨cell, rfl, rfl, holder, hholder, hempty⟩ := Run.blames_of_execute hx
  obtain ⟨v, hv⟩ := h.reads hi holder hholder
  rw [hempty] at hv
  cases hv

/-- the start of a body, in a frame that no function was made over yet -/
theorem start (hspares : p.SparesParameters) (hplace : q.place = 0) (hmakes : p.Makes q.template)
    (hmade : q.frame < q.machine.store.frames.size) (hsure : q.template.Sure ready)
    (hready : ∀ cell ∈ ready, q.machine.store.Settled q.frame cell.id)
    (hcovered : ∀ c, q.Around holds c → p.Covers q.machine.store c) (hnew : ∀ c, q.Around holds c → c.frame < q.frame)
    (hempty : ∀ frame id, q.machine.store.slot? frame id = some none → p.Reserves id) : q.Assigned p holds := by
  obtain ⟨notes, hnotes, hsuits⟩ := hsure.exists_notes
  refine ⟨hmakes, hmade, ⟨notes, hsuits, fun cell hcell => ?_, fun _ => hnew⟩, hcovered, hempty⟩
  rw [hplace, hnotes] at hcell
  rcases List.mem_append.1 hcell with hparameter | hcell
  · exact Store.settled_of_ne (fun frame hslot => hspares _ hmakes cell hparameter (hempty frame cell.id hslot)) _
  · exact hready cell hcell

/-! ## Instructions -/

/-- a function that was around before an instruction -/
theorem covers_step (h : q.Assigned p holds) (hdoes : q.Does host i flow m) (hc : q.Around holds c)
    (hearly : ∀ cell, i = .reserve cell → c.frame < q.frame) : p.Covers m.store c := by
  have hstep := Run.Step.of_execute hdoes.2
  have hcovers := h.covered c hc
  obtain ⟨ready, hsure, hready⟩ := hcovers.ready
  refine ⟨hcovers.makes, ?_, ready, hsure, fun cell hcell => ?_⟩
  · rw [hstep.running.1]
    exact hcovers.made
  · exact hstep.settled h.made hcovers.made (fun other heq => Or.inl (hearly other heq)) (hready cell hcell)

/-- an instruction leads to a place where it is so again -/
theorem onward (h : q.Assigned p holds) (hhost : host.Passes holds) (hdoes : q.Does host i flow m) {place : Nat}
    (hplace : place ∈ i.leads q.place) (hstack : ∀ c ∈ Value.closuresOf stack, c ∈ Value.closuresOf flow.values) :
    (q.onward place stack m).Assigned p holds := by
  have hstep := Run.Step.of_execute hdoes.2
  obtain ⟨hsize, _⟩ := hstep.running
  obtain ⟨notes, hsuits, hready, hmaking⟩ := h.notes
  have hsuit := hsuits _ _ hdoes.1
  obtain ⟨_, _, hnext, hover⟩ := hsuit.leads place hplace
  have hasks := hsuit.here
  -- while cells are made, all functions around were made over earlier frames
  have hearly {cell : Cell} (hi : i = .reserve cell) {c : Closure} (hc : q.Around holds c) : c.frame < q.frame := by
    subst hi
    exact hmaking hasks.1 c hc
  have haround {c : Closure} (hc : (q.onward place stack m).Around holds c) :
      q.Around holds c ∨ Run.Creates q.frame q.machine i c m := hdoes.around hhost (hc.imp_left (hstack c))
  have hmade : q.frame < m.store.frames.size := by
    rw [hsize]
    exact h.made
  have hstays {cell : Cell} (hcell : cell ∈ (notes q.place).ready) : m.store.Settled q.frame cell.id := by
    refine hstep.settled h.made h.made (fun other heq => Or.inr ?_) (hready cell hcell)
    subst heq
    exact (hasks.2 cell hcell).symm
  refine ⟨h.makes, hmade, ⟨notes, hsuits, fun cell hcell => ?_, fun htrue c hc => ?_⟩, fun c hc => ?_,
    fun frame id hslot => ?_⟩
  · rcases hnext cell hcell with hcell | rfl
    · exact hstays hcell
    · obtain ⟨v, holder, found, rfl⟩ := hstep.of_store
      exact Store.settled_put h.made found
  · obtain ⟨cell, rfl⟩ := hover htrue
    obtain hc | ⟨heq, _⟩ := haround hc
    · exact hearly rfl hc
    · cases heq
  · obtain hc | ⟨rfl, hframe, _, _⟩ := haround hc
    · exact h.covers_step hdoes hc fun cell heq => hearly heq hc
    · -- a function is made, whose literal is covered by what has a value here
      obtain ⟨f, hcovered, htemplate⟩ := hasks
      refine ⟨.nested h.makes (Template.mem_pushed (List.mem_of_getElem? hdoes.1)), hframe ▸ hmade, _,
        htemplate ▸ hcovered.sure, fun cell hcell => ?_⟩
      rw [hframe]
      exact hstays hcell
  · obtain hold | ⟨cell, rfl, rfl⟩ := hstep.empty_before h.made hslot
    · exact h.empty frame id hold
    · exact ⟨q.template, h.makes, cell, List.mem_of_getElem? hdoes.1, rfl⟩

/-! ## Calls -/

/-- a call starts where the variables that its function counts on have values -/
theorem enter (h : q.Assigned p holds) (hspares : p.SparesParameters) (hhost : host.Passes holds)
    {arguments : List Value} {rest : Operands} {inner : FrameId} (henters : q.Enters host c arguments rest inner m) :
    (entered c inner m).Assigned p holds := by
  obtain ⟨hmakes, hmade, ready, hsure, hready⟩ := h.covered c (henters.around hhost (Or.inr (Or.inr rfl)))
  have haround {d : Closure} (hd : (entered c inner m).Around holds d) : q.Around holds d :=
    henters.around hhost (Or.inr (Or.inl (hd.elim (fun h => nomatch h) Machine.Around.withDepth)))
  obtain ⟨rfl, rfl⟩ := henters.opened
  let before := q.machine.store
  let slots : List (Cell × Option Value) := (c.template.parameters.zip arguments).map fun p => (p.1, some p.2)
  let after := (before.newCall c).2.fill before.frames.size slots
  have hgrows : before.Grows after := Store.grows_newFrame before _ slots
  have hfilled (cell : Cell) : (cell, none) ∉ slots := by
    intro hmem
    obtain ⟨_, _, heq⟩ := List.mem_map.1 hmem
    cases heq
  have hsettled (cell : Cell) (hcell : cell ∈ ready) : after.Settled before.frames.size cell.id :=
    Store.settled_newFrame rfl rfl hmade (hready cell hcell) hfilled
  have hnewest : before.frames.size < after.frames.size := by
    change _ < ((before.newCall c).2.fill before.frames.size slots).frames.size
    rw [Store.size_fill]
    exact Nat.lt_of_lt_of_eq (Nat.lt_succ_self _) (Array.size_push _).symm
  refine start hspares rfl hmakes hnewest hsure hsettled (fun d hd => (h.covered d (haround hd)).grows hgrows)
    (fun d hd => (h.covered d (haround hd)).made) fun frame id hslot => ?_
  obtain ⟨_, cell, hmem, _⟩ | hold := Store.slot?_newFrame rfl hslot
  · exact absurd hmem (hfilled cell)
  · exact h.empty frame id hold

/-- behind a call it is so again -/
theorem back (h : q.Assigned p holds) (hhost : host.Passes holds) {arguments : List Value} {rest left : Operands}
    {inner : FrameId} {v : Value} (henters : q.Enters host c arguments rest inner m) (hlast : last.Assigned p holds)
    (hgrows : q.machine.store.Grows last.machine.store) (hleaves : last.Leaves host v left m') :
    (q.returned v rest m').Assigned p holds := by
  have haround {d : Closure} (hd : (q.returned v rest m').Around holds d) : q.Around holds d ∨ last.Around holds d := by
    rcases hd with hd | hd
    · rcases List.mem_append.1 hd with hd | hd
      · exact Or.inr (hleaves.around hhost (Or.inl hd))
      · exact Or.inl (henters.around hhost (Or.inl hd))
    · exact Or.inr (hleaves.around hhost (Or.inr hd.withDepth))
  obtain rfl := hleaves.machine_eq
  obtain ⟨i, m₁, hdoes, _⟩ := henters
  obtain ⟨rfl, _⟩ := (Run.Step.of_execute hdoes.2).effect q.place
  obtain ⟨notes, hsuits, hready, _⟩ := h.notes
  obtain ⟨_, _, hnext, hover⟩ := (hsuits _ _ hdoes.1).leads (q.place + 1) List.mem_cons_self
  refine ⟨h.makes, Nat.lt_of_lt_of_le h.made hgrows.size,
    ⟨notes, hsuits, fun cell hcell => ?_, fun htrue => ?_⟩, fun d hd => ?_, hlast.empty⟩
  · exact hgrows.settled h.made (hready cell ((hnext cell hcell).resolve_right fun heq => nomatch heq))
  · obtain ⟨_, heq⟩ := hover htrue
    cases heq
  · rcases haround hd with hd | hd
    · exact (h.covered d hd).grows hgrows
    · exact hlast.covered d hd

end Assigned

end Moment

/-- every step of a run keeps it so -/
theorem assigned_lasting (hspares : p.SparesParameters) (hhost : host.Passes holds) :
    Lasting host (fun _ => True) (fun _ q => q.Assigned p holds) Moment.Continues where
  refl := .refl
  trans := .trans
  next {depth q i stack m} _ h hdoes := by
    obtain ⟨hplace, _⟩ := (Run.Step.of_execute hdoes.2).effect q.place
    exact ⟨h.onward hhost hdoes hplace fun _ hc => hc, hdoes.continues _ _⟩
  jump {depth q i target stack m} _ h hdoes := by
    obtain ⟨rfl, _⟩ := (Run.Step.of_execute hdoes.2).effect q.place
    exact ⟨h.onward hhost hdoes (List.mem_cons_of_mem _ List.mem_cons_self) fun _ hc => hc, hdoes.continues _ _⟩
  enter _ h henters := h.enter hspares hhost henters
  back {depth q c arguments rest inner m last v left m'} _ h henters _ hlast hstays hleaves := by
    have hback := h.back hhost henters hlast (henters.grows hstays (.refl _)) hleaves
    obtain rfl := hleaves.machine_eq
    exact ⟨hback, rfl, rfl, fun _ _ => henters.grows hstays⟩

end TypedScript
