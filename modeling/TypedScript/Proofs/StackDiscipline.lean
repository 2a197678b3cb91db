/-
Stack discipline. Whatever is wrong with a program, if code is laid down for it, that code is balanced: at every place
the stack has one height, however the place is reached. So no instruction of a run finds too few operands, and no
activation leaves any behind.

- `Meets.way`: in a run some way comes to each place, with as many operands as there are.
- `stack_balanced`: the code of expressions, statements and bodies is balanced, and so are the runs of a program.
-/
import TypedScript.Proofs.Bound.Heights
import TypedScript.Proofs.CompilerCorrectness
import TypedScript.Proofs.Machine.Running

namespace TypedScript

namespace Template

variable {t : Template} {place height : Nat}

theorem Way.step (h : t.Way place height) {i : Instruction} {next : Nat} (hi : t.code[place]? = some i)
    (hnext : next ∈ i.leads place) : t.Way next (height - i.takes + i.gives) := by
  unfold Way at h ⊢
  rw [← Nat.zero_add place] at h hnext
  exact Code.Way.step h hi hnext

end Template

section

variable {σ : Type} {host : Host σ} {q : Moment σ}

/-- the stack has the height that the place of the moment has, the next instruction finds its operands, and if the
activation ends, it leaves none behind -/
structure Moment.Disciplined (host : Host σ) (q : Moment σ) : Prop where
  way : q.template.Way q.place q.stack.length
  enough : ∀ i, q.instruction? = some i → i.takes ≤ q.stack.length
  faultless : ¬ q.Faults host .stackUnderflow
  leaves : ∀ v left m, q.Leaves host v left m → left = []

theorem Moment.disciplined (hbalanced : q.template.Balanced) (hway : q.template.Way q.place q.stack.length) :
    q.Disciplined host := by
  refine ⟨hway, fun i hi => hbalanced.enough hway hi, ?_, fun v left m hleaves => ?_⟩
  · rintro ⟨i, m, hi, hx⟩
    have hshort : q.stack.length < i.takes := Run.blames_of_execute hx
    exact absurd (hbalanced.enough hway hi) (Nat.not_le.2 hshort)
  · obtain ⟨hnone, _⟩ | ⟨i, hi, hx⟩ := hleaves
    · exact absurd (hbalanced.inside hway) (Nat.not_lt.2 (List.getElem?_eq_none_iff.1 hnone))
    · obtain ⟨hexit, hlength⟩ := (Run.Step.of_execute hx).effect q.place
      refine List.eq_nil_of_length_eq_zero ?_
      rcases hexit with rfl | rfl
      · rw [hlength, hbalanced.halt hway hi]
        rfl
      · rw [hlength, hbalanced.giveBack hway hi]
        rfl

/-- where some way comes to the place of a moment with as many operands as there are, one does at all later moments -/
theorem heights_lasting : Lasting host (fun _ => True) (fun _ q => q.template.Way q.place q.stack.length)
    fun _ _ => True where
  refl _ := trivial
  trans _ _ := trivial
  next {depth q i stack m} _ h hdoes := by
    obtain ⟨hi, hx⟩ := hdoes
    obtain ⟨hnext, hlength⟩ := (Run.Step.of_execute hx).effect q.place
    have hway := h.step hi hnext
    rw [← hlength] at hway
    exact ⟨hway, trivial⟩
  jump {depth q i target stack m} _ h hdoes := by
    obtain ⟨hi, hx⟩ := hdoes
    obtain ⟨rfl, hlength⟩ := (Run.Step.of_execute hx).effect q.place
    have hway := h.step hi (List.mem_cons_of_mem _ (List.mem_singleton_self target))
    rw [← hlength] at hway
    exact ⟨hway, trivial⟩
  enter _ _ _ := .enter
  back {depth q c arguments rest inner m last v left m'} _ h henters _ _ _ _ := by
    obtain ⟨i, m₁, ⟨hi, hx⟩, _⟩ := henters
    obtain ⟨rfl, hlength⟩ := (Run.Step.of_execute hx).effect q.place
    have hway := h.step hi (List.mem_singleton_self (q.place + 1))
    have hheight : q.stack.length - (Instruction.dispatch arguments.length).takes +
        (Instruction.dispatch arguments.length).gives = (v :: rest).length := by
      rw [← hlength]
      rfl
    rw [hheight] at hway
    exact ⟨hway, trivial⟩

/-- in the run of a template some way comes to each place that is met, with as many operands as there are -/
theorem Meets.way {t : Template} {m : Machine σ} {n : Nat} (hmet : Meets host (.started t m) n q) :
    q.template.Way q.place q.stack.length := by
  have hstart : t.Way 0 0 := .enter
  exact heights_lasting.meets 0 (fun _ _ _ => trivial) hstart hmet

end

/-! ## Programs -/

namespace Compile

variable {job : Job} {scope : ScopeId} {s s' : Progress} {code : Code}

theorem exists_of_map {α β : Type} {x : Compile α} {f : α → β} {b : β} (h : (f <$> x).run s = .ok (b, s')) :
    ∃ a, x.run s = .ok (a, s') ∧ b = f a := by
  rw [StateT.run_map] at h
  cases hx : x.run s with
  | error fault => rw [hx] at h; cases h
  | ok result =>
    rw [hx] at h
    cases h
    exact ⟨result.1, rfl, rfl⟩

/-- the code of an expression raises the height of the stack by one, wherever it stands -/
theorem expr_balanced {e : Expr} (h : (expr job scope e).run s = .ok (code, s')) (start base : Nat) :
    code.Balanced start base (base + 1) := by
  rw [expr_eq] at h
  obtain ⟨b, _, rfl⟩ := exists_of_map h
  exact (b.levels start (Nat.le_refl base)).balanced

/-- the code of a statement leaves the height of the stack as it is -/
theorem stmt_balanced {start : Nat} {st : Stmt} (h : (stmt job scope start st).run s = .ok (code, s')) (base : Nat) :
    code.Balanced start base base := by
  rw [stmt_eq] at h
  obtain ⟨b, _, rfl⟩ := exists_of_map h
  exact (Bound.Stmt.levels start base b).balanced

end Compile

section

variable {p : Program}

/-- the templates of a program are balanced -/
theorem Program.Makes.balanced {t : Template} (h : p.Makes t) : t.Balanced := by
  obtain ⟨isModule, f, rfl⟩ := h.exists_function
  exact f.balanced isModule

variable {σ : Type} {host : Host σ} {holds : σ → List Closure} {memory : σ}

/-- every moment of a run of the program's templates is disciplined -/
theorem Program.Makes.disciplined (hhost : host.Conserves holds) {limit n : Nat} {t : Template} {m : Machine σ}
    {q : Moment σ} (ht : p.Makes t) (hm : Run.Only p.Makes holds limit 0 m) (hmet : Meets host (.started t m) n q) :
    q.Disciplined host := by
  have hready {n : Nat} {q : Moment σ} (hmet : Meets host (.started t m) n q) : Ready p.Makes holds limit (0 + n) q :=
    (ready_lasting hhost fun _ ht _ hu => .nested ht hu).meets 0 (fun _ _ _ => trivial) (hm.started ht) hmet
  exact Moment.disciplined (hready hmet).template.balanced hmet.way

/-- every expression's code raises the height of the stack by one, every statement's code leaves it as it is, and the
code of every body has one height at each place, which is one at a `return` and zero at the end of a module; so with a
host that makes no functions of its own no run of the templates of a program lacks an operand, and no activation in it
leaves one behind -/
theorem stack_balanced (p : Program) (hhost : host.Conserves holds) (hmemory : holds memory = []) :
    (∀ job scope e s code s', (Compile.expr job scope e).run s = .ok (code, s') →
      ∀ start base, Code.Balanced start base code (base + 1)) ∧
    (∀ job scope start st s code s', (Compile.stmt job scope start st).run s = .ok (code, s') →
      ∀ base, Code.Balanced start base code base) ∧
    (∀ t, p.Makes t → t.Balanced) ∧
    (∀ limit t m n q, p.Makes t → Run.Only p.Makes holds limit 0 m → Meets host (.started t m) n q →
      q.Disciplined host) ∧
    ∀ t : Toolchain, (∀ n q, t.Meets host p memory n q → q.Disciplined host) ∧
      (t.execute host p memory).1 ≠ .error (.runtime .stackUnderflow) := by
  have hmoments (t : Toolchain) (n : Nat) (q : Moment σ) (hmet : t.Meets host p memory n q) : q.Disciplined host := by
    obtain ⟨templates, start, hcompile, hstarts, hmet'⟩ := hmet
    obtain ⟨_, template, m, _, hmakes, hm, rfl⟩ := hstarts.only hhost hmemory hcompile
    exact hmakes.disciplined hhost hm hmet'
  refine ⟨fun _ _ _ _ _ _ h => Compile.expr_balanced h, fun _ _ _ _ _ _ _ h => Compile.stmt_balanced h,
    fun t ht => ht.balanced, fun _ _ _ _ _ ht hm hmet => ht.disciplined hhost hm hmet,
    fun t => ⟨hmoments t, fun hfault => ?_⟩⟩
  obtain ⟨start, _, ⟨n, q, hmet, hfaults⟩ | ⟨_, _, _, _, _, _, _, _, _, _, _, _, _, _, _, hload⟩⟩ :=
    Toolchain.execute_fault hfault
  · exact (hmoments t n q hmet).faultless hfaults
  · obtain ⟨h, _⟩ | ⟨h, _⟩ := Store.load_fault hload
    · cases h
    · cases h

end

theorem stack_balanced_importing : ∃ body g p templates, parse importing = .ok body ∧
    Graph.build "main" body library [StandardFunction.module] = .ok g ∧ link g = .ok p ∧ p.compile = .ok templates ∧
    printing.Conserves (fun _ => []) ∧ (∀ t, some t ∈ templates → t.Balanced) ∧
    ((Toolchain.default.withLoader library).execute printing p []).1 ≠ .error (.runtime .stackUnderflow) := by
  obtain ⟨body, g, p, hparse, hbuild, _, hlink, hclean⟩ := importing_checked
  have hbuilt := Graph.built_of_build hparse hbuild
  have hcompile := compile_eq (fun m hm => linked_made hbuilt hlink hm) hlink hclean
  have hmemory : (fun _ => []) ([] : List String) = ([] : List Closure) := rfl
  obtain ⟨_, _, hbalanced, _, hruns⟩ := stack_balanced p printing_conserves hmemory
  exact ⟨body, g, p, _, hparse, hbuild, hlink, hcompile, printing_conserves,
    fun t ht => hbalanced t (.body hcompile ht), (hruns _).2⟩

end TypedScript
