/-
Runs end. Whatever is wrong with a program, the jumps of its code lead forward, so that each activation comes to each of
its instructions once at most, and no more calls are open at a time than the limit allows. So the fuel that the tool
chain gives a program is never used up.

- `Program.Makes.jumps`: every jump in a program's templates leads forward to an instruction.
- `Onward.place_lt`: an activation never comes to a place twice.
- `runs_end`: the body of each module, and the program, ends.
-/
import TypedScript.Proofs.CompilerCorrectness
import TypedScript.Proofs.Machine.Running
import TypedScript.Proofs.Machine.Steps

namespace TypedScript

/-! ## Templates -/

namespace Program

variable {p : Program} {t : Template} {templates : List (Option Template)} {longest : Nat}

theorem Makes.forward (h : p.Makes t) : t.Forward := by
  obtain ⟨isModule, f, rfl⟩ := h.exists_function
  exact f.forward isModule

/-- every jump in the templates of a program leads forward, and to an instruction -/
theorem Makes.jumps (h : p.Makes t) {i target : Nat} (hi : t.code[i]? = some (.jumpIfFalse target)) :
    i < target ∧ target < t.code.length := by
  obtain ⟨hjumps, _⟩ := h.forward
  exact hjumps i target hi

/-- no template of a program is longer than the longest of those of its modules -/
theorem Makes.within (hcompile : p.compile = .ok templates) (hlongest : ∀ t, some t ∈ templates → t.longest ≤ longest)
    (h : p.Makes t) : t.Within longest := by
  induction h with
  | @body other t compiles mem =>
    obtain rfl : templates = other := Except.ok.inj (hcompile.symm.trans compiles)
    exact ⟨(Makes.body compiles mem).forward, hlongest t mem⟩
  | nested _ mem ih => exact ih.nested mem

end Program

/-! ## Moments -/

variable {σ : Type} {host : Host σ} {holds : σ → List Closure} {p : Program} {q q' : Moment σ}

/-- within an activation the place only grows, where jumps lead forward -/
theorem Onward.place_lt (h : Onward host q q') (hforward : q.template.Forward) :
    q'.template = q.template ∧ q.place < q'.place := by
  cases h with
  | next does => exact ⟨rfl, Nat.lt_succ_self _⟩
  | back fuel enters returns => exact ⟨rfl, Nat.lt_succ_self _⟩
  | jump does =>
    obtain ⟨hi, hx⟩ := does
    obtain ⟨rfl, _⟩ := (Run.Step.of_execute hx).effect q.place
    obtain ⟨hjumps, _⟩ := hforward
    exact ⟨rfl, (hjumps _ _ hi).1⟩

/-- so an activation never comes back to a place -/
theorem Onward.place_lt_of_transGen (h : Relation.TransGen (Onward host) q q') (hforward : q.template.Forward) :
    q.place < q'.place := by
  have hall : q'.template = q.template ∧ q.place < q'.place := by
    induction h with
    | single step => exact step.place_lt hforward
    | tail _ step ih =>
      obtain ⟨htemplate, hlt⟩ := ih
      obtain ⟨htemplate', hlt'⟩ := step.place_lt (htemplate.symm ▸ hforward)
      exact ⟨htemplate'.trans htemplate, Nat.lt_trans hlt hlt'⟩
  exact hall.2

/-! ## Fuel -/

/-- the body of a module does not use up the fuel of its program -/
theorem Program.Makes.run_ends (hhost : host.Conserves holds) {templates : List (Option Template)}
    (hcompile : p.compile = .ok templates) {limit fuel : Nat} {t : Template} {m : Machine σ} (ht : p.Makes t)
    (hm : Run.Only p.Makes holds limit 0 m) (hfuel : Toolchain.fuel limit templates ≤ fuel) (m' : Machine σ) :
    (Moment.started t m).run host fuel ≠ .error .outOfFuel m' := by
  obtain ⟨longest, hlongest, henough⟩ := Toolchain.fuel_enough limit templates
  have hwithin (t : Template) (ht : p.Makes t) : t.Within longest := ht.within hcompile hlongest
  have hready := hm.started ht
  have hlength := Nat.le_trans (Template.length_le_longest t) (hwithin t ht).length
  have hbudget : t.code.length - 0 + (limit - 0) * (longest + 1) < fuel := by
    rw [Nat.sub_zero, Nat.sub_zero]
    omega
  intro hrun
  unfold Moment.run at hrun
  have hends :=
    @Run.code_ends σ holds host p.Makes limit longest hhost hwithin (fun t ht u hu => .nested ht hu) fuel 0 t
    (Moment.started t m).frame 0 [] (Moment.started t m).machine ht hready.stack hready.machine hbudget
  rw [show Run.code host fuel t.code (Moment.started t m).frame 0 [] (Moment.started t m).machine =
    .error .outOfFuel m' from hrun] at hends
  exact hends rfl

/-- in every template of a program for which code is laid down each jump leads forward to an instruction; so
with a host that makes no functions of its own the body of each module ends within the fuel of the program,
wherever only functions of the program are around: its activations never come to a place twice, and no more
calls are open than the limit allows -/
theorem runs_end {templates : List (Option Template)} {memory : σ} (hcompile : p.compile = .ok templates)
    (hhost : host.Conserves holds) (hmemory : holds memory = []) :
    (∀ t, p.Makes t → ∀ i target, t.code[i]? = some (.jumpIfFalse target) → i < target ∧ target < t.code.length) ∧
    (∀ limit t fuel m m', some t ∈ templates → Run.Only p.Makes holds limit 0 m →
      Toolchain.fuel limit templates ≤ fuel →
      t.evaluate host fuel m ≠ .error .outOfFuel m') ∧
    (∀ limit t m n q, some t ∈ templates → Run.Only p.Makes holds limit 0 m → Meets host (.started t m) n q →
      q.machine.depth = n ∧ n ≤ limit ∧ ∀ q', Relation.TransGen (Onward host) q q' → q.place < q'.place) ∧
    ∀ t : Toolchain, (t.execute host p memory).1 ≠ .error .unfinished := by
  refine ⟨fun t ht i target hi => ht.jumps hi, fun limit t fuel m m' ht hm hfuel hrun => ?_,
    fun limit t m n q ht hm hmet => ?_, fun t hrun => ?_⟩
  · rw [Moment.evaluate_eq] at hrun
    have hends := (Program.Makes.body hcompile ht).run_ends hhost hcompile hm hfuel
    cases hcode : (Moment.started t m).run host fuel with
    | ok result last => rw [hcode] at hrun; cases hrun
    | error stop last =>
      rw [hcode] at hrun
      cases hrun
      exact hends _ hcode
  · have hready := (ready_lasting hhost fun _ ht _ hu => .nested ht hu).meets 0 (fun _ _ _ => trivial)
      (hm.started (Program.Makes.body hcompile ht)) hmet
    rw [Nat.zero_add] at hready
    exact ⟨hready.machine.depth, hready.depth, fun q' hq' => Onward.place_lt_of_transGen hq' hready.template.forward⟩
  · obtain ⟨_, herror⟩ | ⟨templates', last, hcompile', hmodules⟩ := Toolchain.execute_error hrun
    · cases herror
    obtain ⟨start, last, hstarts, hstart⟩ := Toolchain.runModules_unfinished hmodules
    obtain ⟨_, template, m, _, hmakes, hm, rfl⟩ := hstarts.only hhost hmemory hcompile'
    exact hmakes.run_ends hhost hcompile' hm (Nat.le_refl _) last hstart

theorem runs_end_importing : ∃ body g p templates, parse importing = .ok body ∧
    Graph.build "main" body library [StandardFunction.module] = .ok g ∧ link g = .ok p ∧ p.compile = .ok templates ∧
    printing.Conserves (fun _ => []) ∧
    ((Toolchain.default.withLoader library).execute printing p []).1 ≠ .error .unfinished := by
  obtain ⟨body, g, p, hparse, hbuild, _, hlink, hclean⟩ := importing_checked
  have hbuilt := Graph.built_of_build hparse hbuild
  have hcompile := compile_eq (fun m hm => linked_made hbuilt hlink hm) hlink hclean
  have hmemory : (fun _ => []) ([] : List String) = ([] : List Closure) := rfl
  obtain ⟨_, _, _, hends⟩ := runs_end hcompile printing_conserves hmemory
  exact ⟨body, g, p, _, hparse, hbuild, hlink, hcompile, printing_conserves, hends _⟩

end TypedScript
