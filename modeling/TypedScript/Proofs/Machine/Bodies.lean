/-
Bodies of modules. The body of a module runs in a frame of its own, which has a cell for each variable of the module
when the cells are made, so that whatever is fetched or computed for a variable is stored. A body that comes to its end
has come to all code that stands directly in it; so each variable that the module exports has a value then, and what is
imported directly in the body was fetched.

- `Moment.Level.meets`: the levels of frames and scopes along an activation, whatever the functions around are.
- `Program.BodyCode.fetches`: what is fetched is stored at once.
- `Program.BodyCode.comes`: a body that ends has come to what is certain in it.
- `Program.BodyCode.collects`: its exports can be collected.
-/
import TypedScript.Proofs.Bound.Imports
import TypedScript.Proofs.Machine.Activations

namespace TypedScript

open Compile (Job)

variable {σ : Type} {host : Host σ} {p : Program} {job : Job} {scope : ScopeId} {m : LinkedModule} {t : Template}
  {before : Machine σ} {q q' start last : Moment σ} {cell : Cell} {v : Value} {left : Operands} {after : Machine σ}

/-! ## Levels along an activation -/

namespace Moment

namespace Level

/-- behind the cells of a body no cell is made -/
theorem no_reserve (h : q.Level job scope) (hordered : job.program.arena.Ordered)
    (hbehind : (Compile.localCells job scope).length ≤ q.place) (cell : Cell) :
    q.instruction? ≠ some (.reserve cell) := by
  intro hi
  obtain ⟨_, hcell, _⟩ | ⟨_, hreaches⟩ := h.instruction hordered hi
  · exact absurd (List.getElem?_eq_some_iff.1 hcell).1 (Nat.not_lt.2 hbehind)
  · exact hreaches

theorem place_lt (h : q.Level job scope) (step : Onward host q q') : q.place < q'.place := by
  rcases step.place with hnext | hjump
  · exact hnext ▸ Nat.lt_succ_self _
  · obtain ⟨isModule, f, hf⟩ := h.laid.exists_function
    obtain ⟨hjumps, _⟩ := f.forward isModule
    exact (hjumps q.place q'.place (hf ▸ hjump)).1

/-- a step of an activation leads to the same level -/
theorem onward (h : q.Level job scope) (hordered : job.program.arena.Ordered) (step : Onward host q q') :
    q'.Level job scope := by
  have hplace := Nat.le_of_lt (h.place_lt step)
  by_cases hreserve : ∃ cell, q.instruction? = some (.reserve cell)
  · obtain ⟨cell, hi⟩ := hreserve
    obtain ⟨stack, m, does, rfl⟩ := step.next_of hi (fun _ => nofun) fun _ => nofun
    obtain rfl := (Run.Step.of_execute does.2).of_reserve
    exact (h.reserved hordered hi stack).2
  · obtain ⟨i, hi⟩ := step.exists_instruction
    have hbehind := h.behind hordered hi fun cell heq => hreserve ⟨cell, heq ▸ hi⟩
    have hgrows := step.grows fun cell hcell => hreserve ⟨cell, hcell⟩
    cases step with
    | next does => exact h.keeps hbehind (hgrows.keeps _) hplace _
    | jump does => exact h.keeps hbehind (hgrows.keeps _) hplace _
    | back fuel enters returns => exact h.keeps hbehind (hgrows.keeps _) hplace _

/-- an activation stays at its level and never comes back to a place -/
theorem meets (h : start.Level job scope) (hordered : job.program.arena.Ordered) (hmet : Meets host start 0 q) :
    q.Level job scope ∧ start.place ≤ q.place := by
  refine hmet.activation (P := fun q => q.Level job scope ∧ start.place ≤ q.place) ⟨h, Nat.le_refl _⟩
    fun q q' _ hq step => ⟨hq.1.onward hordered step, Nat.le_trans hq.2 (Nat.le_of_lt (hq.1.place_lt step))⟩

/-- behind the cells of a body nothing is taken away -/
theorem grows (h : start.Level job scope) (hordered : job.program.arena.Ordered)
    (hbehind : (Compile.localCells job scope).length ≤ start.place) (hmet : Meets host start 0 q) :
    start.machine.store.Grows q.machine.store := by
  refine hmet.activation (P := fun q => start.machine.store.Grows q.machine.store)
    (.refl _) fun q q' hq hgrows step => ?_
  obtain ⟨hlevel, hplace⟩ := h.meets hordered hq
  exact hgrows.trans (step.grows (hlevel.no_reserve hordered (Nat.le_trans hbehind hplace)))

end Level

/-! ## Variables with values -/

/-- what is stored in a variable is in the variable then -/
theorem initialised_of_store (hmade : q.frame < q.machine.store.frames.size) (hi : q.instruction? = some (.store cell))
    (step : Onward host q q') : q'.machine.store.Initialised q'.frame cell.id := by
  obtain ⟨stack, m, does, rfl⟩ := step.next_of hi (fun _ => nofun) fun _ => nofun
  obtain ⟨v, holder, found, rfl⟩ := (Run.Step.of_execute does.2).of_store
  obtain ⟨_, hslot⟩ := Store.holder?_some found
  obtain ⟨content, hcontent⟩ := Option.isSome_iff_exists.1 hslot
  refine ⟨holder, v, ?_, ?_⟩
  · exact ((Store.Grows.put hslot v).holder? hmade cell.id).trans found
  · change (q.machine.store.put holder cell.id (some v)).slot? holder cell.id = some (some v)
    rw [Store.slot?_put_eq (Store.lt_of_slot? hcontent), if_pos ⟨rfl, rfl⟩]

/-- at a moment an export is fetched, and the step behind it stores it in a variable of the moment's frame -/
def Imports (host : Host σ) (q : Moment σ) (cell : Cell) (v : Value) : Prop :=
  ∃ loaded stored, Onward host q loaded ∧ loaded.stack = v :: q.stack ∧ loaded.instruction? = some (.store cell) ∧
    Onward host loaded stored ∧ stored.stack = q.stack ∧ stored.place = q.place + 2 ∧
    stored.machine.store.slot? q.frame cell.id = some (some v)

end Moment

/-! ## Bodies -/

namespace Program.BodyCode

variable (h : p.BodyCode m t)

include h

theorem level (hordered : p.arena.Ordered) (hmet : Meets host (.started t before) 0 q) :
    q.Level ⟨p, m⟩ m.scopes.global :=
  ((Moment.level_started hordered h.laid h.parameters h.global before).meets hordered hmet).1

/-- an export that is fetched in the body of a module is one of a module that it links to, and where it is found it is
stored in the variable of its name -/
theorem fetches (hp : p.arena.WellFormed) (hmet : Meets host (.started t before) 0 q) {key name : String}
    (hi : q.instruction? = some (.loadImport key name)) :
    Job.Supplies ⟨p, m⟩ key name ∧ ∃ s w, p.arena.get? m.scopes.global = some s ∧
      s.find? name = some w ∧ ∀ v, q.machine.export? key name = some v → q.Imports host w.cell v := by
  have hlevel := h.level hp.ordered hmet
  have hfetch : q.template.code[q.place]? = some (.loadImport key name) := hi
  obtain ⟨hsupplies, s, w, hs, hfind, hnext⟩ := hlevel.laid.fetches q.place key name hfetch
  refine ⟨hsupplies, s, w, hs, hfind, fun v hv => ?_⟩
  have hbehind := hlevel.behind hp.ordered hi fun _ heq => nomatch heq
  have hloads : q.Does host (.loadImport key name) (.next (v :: q.stack)) q.machine := by
    refine ⟨hi, ?_⟩
    rw [Run.execute, Run.bind_apply]
    dsimp only [get, getThe, MonadStateOf.get, EStateM.get]
    rw [hv]
    rfl
  -- the frame of the body itself has the cell
  have hcell : w.cell ∈ p.arena.cells m.scopes.global :=
    Arena.mem_cells.2 ⟨s, w, hs, Arena.mem_of_find? hfind, rfl⟩
  have hown := hlevel.own
  rw [List.take_of_length_le hbehind, Compile.parameterCells_append_localCells] at hown
  have hslot := (hown.slots w.cell.id).2 ⟨w.cell, hcell, rfl⟩
  have hholder : q.machine.store.holder? q.frame w.cell.id = some q.frame := by
    rw [Store.holder?_eq, hslot]
    rfl
  have hstores : (q.onward (q.place + 1) (v :: q.stack) q.machine).Does host (.store w.cell) (.next q.stack)
      { q.machine with store := q.machine.store.put q.frame w.cell.id (some v) } := by
    refine ⟨hnext, ?_⟩
    change (Run.assign q.frame w.cell v >>= fun _ => (pure (.next q.stack) : Run σ Flow)) q.machine = _
    rw [Run.bind_apply]
    unfold Run.assign
    rw [hholder]
    rfl
  refine ⟨_, _, .next hloads, rfl, hnext, .next hstores, rfl, rfl, ?_⟩
  change (q.machine.store.put q.frame w.cell.id (some v)).slot? q.frame w.cell.id = some (some v)
  rw [Store.slot?_put_eq hown.made, if_pos ⟨rfl, rfl⟩]

/-- a body ends at its end -/
theorem length_le_of_leaves (hmet : Meets host (.started t before) 0 last)
    (hleaves : last.Leaves host v left after) : t.code.length ≤ last.place + 1 := by
  obtain ⟨code, hcode, hstays⟩ := h.ends
  have htemplate : last.template = t := hmet.template
  obtain ⟨hnone, _⟩ | ⟨i, hi, hx⟩ := hleaves
  · unfold Moment.instruction? at hnone
    rw [htemplate] at hnone
    exact Nat.le_succ_of_le (List.getElem?_eq_none_iff.1 hnone)
  · obtain ⟨hexit, _⟩ := (Run.Step.of_execute hx).effect last.place
    unfold Moment.instruction? at hi
    rw [htemplate, hcode] at hi
    rw [hcode, List.length_append]
    refine Nat.succ_le_succ (Nat.le_of_not_lt fun hlt => ?_)
    rw [List.getElem?_append_left hlt] at hi
    obtain ⟨hhalt, hgiveBack⟩ := hstays i (List.mem_of_getElem? hi)
    exact hexit.elim hhalt hgiveBack

/-- a body that ends has come to what is certain in it, and has gone on from there -/
theorem comes (hmet : Meets host (.started t before) 0 last)
    (hleaves : last.Leaves host v left after) {i : Instruction} (hi : Code.Certain t.code i) :
    ∃ mid next, Meets host (.started t before) 0 mid ∧ mid.instruction? = some i ∧ Onward host mid next ∧
      Meets host next 0 last := by
  obtain ⟨place, hplace, hlt, hunskipped⟩ := hi
  have hend := h.length_le_of_leaves hmet hleaves
  have hlast : place < last.place := by omega
  obtain ⟨mid, hmid, rfl, hto⟩ := hmet.crosses hunskipped (Nat.zero_le _) (Nat.le_of_lt hlast)
  have hmidTemplate : mid.template = t := hmid.template
  rcases hto.eq_or_step with rfl | ⟨next, step, hrest⟩
  · omega
  · exact ⟨mid, next, hmid, by unfold Moment.instruction?; rw [hmidTemplate, hplace], step, hrest⟩

/-- where a body ends, each variable that the module exports has a value -/
theorem exported_initialised (hordered : p.arena.Ordered) (hmet : Meets host (.started t before) 0 last)
    (hleaves : last.Leaves host v left after) {e : String × Ty} (he : e ∈ p.arena.exports m.scopes.global) :
    ∃ s w, p.arena.get? m.scopes.global = some s ∧ s.find? e.1 = some w ∧
      last.machine.store.Initialised last.frame w.cell.id := by
  obtain ⟨s, w, hs, hfind, hcertain⟩ := h.exported e he
  obtain ⟨mid, next, hmid, hi, step, hrest⟩ := h.comes hmet hleaves hcertain
  have hlevel := h.level hordered hmid
  have hbehind := hlevel.behind hordered hi fun _ heq => nomatch heq
  have hnext := hlevel.onward hordered step
  have hgrows := hnext.grows hordered (Nat.le_trans hbehind (Nat.le_of_lt (hlevel.place_lt step))) hrest
  refine ⟨s, w, hs, hfind, ?_⟩
  rw [hrest.frame]
  exact hgrows.initialised hnext.own.made (Moment.initialised_of_store hlevel.own.made hi step)

/-- the exports of a module whose body has ended can be collected -/
theorem collects (hordered : p.arena.Ordered) {fuel : Nat}
    (hrun : (Moment.started t before).run host fuel = .ok (v, left) after) :
    ∃ exports, Toolchain.collect (p.arena.get? m.scopes.global) before.store.newRoot.1
      (p.arena.exports m.scopes.global) .empty after = .ok exports := by
  obtain ⟨last, hmet, _, hleaves⟩ := Moment.exists_leaving hrun
  have hframe : last.frame = before.store.newRoot.1 := hmet.frame
  have hall {e : String × Ty} (he : e ∈ p.arena.exports m.scopes.global) :=
    h.exported_initialised hordered hmet hleaves he
  obtain rfl := hleaves.machine_eq
  have hload (exports : List (String × Ty)) (collected : Exports)
      (hexports : ∀ e ∈ exports, e ∈ p.arena.exports m.scopes.global) :
      ∃ found, Toolchain.collect (p.arena.get? m.scopes.global) before.store.newRoot.1 exports collected
        last.machine = .ok found := by
    induction exports generalizing collected with
    | nil => exact ⟨collected, rfl⟩
    | cons e exports ih =>
      obtain ⟨he, hrest⟩ := List.forall_mem_cons.1 hexports
      obtain ⟨s, w, hs, hfind, hinitialised⟩ := hall he
      obtain ⟨_, value, _, hvalue⟩ := hinitialised.load
      rw [hframe] at hvalue
      unfold Toolchain.collect
      rw [hs, Option.bind_some, Scope.variableIndex?_bind, hfind]
      dsimp only
      rw [hvalue, ← hs]
      exact ih _ hrest
  exact hload _ .empty fun _ he => he

end Program.BodyCode

end TypedScript
