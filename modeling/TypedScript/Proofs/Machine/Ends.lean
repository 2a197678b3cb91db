/-
Runs end. No jump leads back, so that a body executes each of its instructions once at most, and no more calls are open
at a time than the limit allows. Where all functions around are made from such templates, fuel for the longest of them
and for one such body more in each call is enough.

- `Run.code_ends`: a run with that much fuel does not use it up.
- `Bound.Function.forward`: the templates of bound trees are such templates.
-/
import TypedScript.Proofs.Bound.Tree
import TypedScript.Proofs.Machine.Functions

namespace TypedScript

/-! ## Templates whose jumps lead forward -/

namespace Template

variable {code code' : Code} {t u : Template}

/-- in a template and those nested in it, every jump leads forward and not out of the code -/
inductive Forward : Template → Prop
  | mk {t : Template} (jumps : ∀ i target, t.code[i]? = some (.jumpIfFalse target) →
      i < target ∧ target < t.code.length)
      (nested : ∀ u ∈ t.nested, Forward u) : Forward t

theorem pushed_append (code code' : Code) : pushed (code ++ code') = pushed code ++ pushed code' := by
  induction code with
  | nil => rfl
  | cons i code ih =>
    cases i with
    | push c => cases c <;> simp [pushed, ih]
    | _ => simp [pushed, ih]

theorem mem_pushed (h : .push (.function u) ∈ code) : u ∈ pushed code := by
  obtain ⟨before, after, rfl⟩ := List.append_of_mem h
  rw [pushed_append]
  exact List.mem_append_right _ List.mem_cons_self

theorem mem_of_mem_pushed (h : u ∈ pushed code) : .push (.function u) ∈ code := by
  induction code with
  | nil => cases h
  | cons i code ih =>
    have htail (h : u ∈ pushed code) : .push (.function u) ∈ i :: code := List.mem_cons_of_mem _ (ih h)
    cases i with
    | push c =>
      cases c with
      | function t =>
        rcases List.mem_cons.1 h with rfl | h
        · exact List.mem_cons_self
        · exact htail h
      | _ => exact htail h
    | _ => exact htail h

theorem longest_le_of_mem_pushed (h : u ∈ pushed code) : u.longest ≤ longestPushed code := by
  induction code with
  | nil => cases h
  | cons i code ih =>
    rw [longestPushed]
    have htail (h : u ∈ pushed code) : u.longest ≤ max (longestIn i) (longestPushed code) :=
      Nat.le_trans (ih h) (Nat.le_max_right _ _)
    cases i with
    | push c =>
      cases c with
      | function t =>
        rcases List.mem_cons.1 h with rfl | h
        · exact Nat.le_max_left _ _
        · exact htail h
      | _ => exact htail h
    | _ => exact htail h

theorem length_le_longest (t : Template) : t.code.length ≤ t.longest := by
  obtain ⟨id, parameters, code⟩ := t
  rw [longest]
  exact Nat.le_max_left _ _

theorem longest_le_of_nested (h : u ∈ t.nested) : u.longest ≤ t.longest := by
  obtain ⟨id, parameters, code⟩ := t
  rw [longest]
  exact Nat.le_trans (longest_le_of_mem_pushed h) (Nat.le_max_right _ _)

/-- a template whose jumps lead forward, no code in it being longer than so many instructions -/
structure Within (longest : Nat) (t : Template) : Prop where
  forward : t.Forward
  length : t.longest ≤ longest

theorem Within.nested {longest : Nat} (h : t.Within longest) (hu : u ∈ t.nested) : u.Within longest := by
  obtain ⟨_, hnested⟩ := h.forward
  exact ⟨hnested u hu, Nat.le_trans (longest_le_of_nested hu) h.length⟩

end Template

/-! ## Bound trees -/

/-- code without jumps, whose templates have none that lead back -/
structure Code.Straight (code : Code) : Prop where
  jumps : ∀ target, .jumpIfFalse target ∉ code
  pushed : ∀ u ∈ Template.pushed code, u.Forward

/-- code that starts at a place of a body, whose jumps lead forward and not beyond what follows it -/
structure Code.Leads (start : Nat) (code : Code) : Prop where
  jumps : ∀ i target, code[i]? = some (.jumpIfFalse target) → start + i < target ∧ target ≤ start + code.length
  pushed : ∀ u ∈ Template.pushed code, u.Forward

/-- no jump in front of a place leads beyond it -/
def Code.Unskipped (code : Code) (place : Nat) : Prop :=
  ∀ i target, i < place → code[i]? = some (.jumpIfFalse target) → target ≤ place

namespace Code

variable {code code' : Code} {start : Nat}

theorem Straight.append (h : Straight code) (h' : Straight code') : Straight (code ++ code') := by
  refine ⟨fun target hmem => ?_, fun u hu => ?_⟩
  · rcases List.mem_append.1 hmem with hmem | hmem
    · exact h.jumps target hmem
    · exact h'.jumps target hmem
  · rw [Template.pushed_append] at hu
    exact (List.mem_append.1 hu).elim (h.pushed u) (h'.pushed u)

theorem Straight.leads (h : Straight code) (start : Nat) : Leads start code :=
  ⟨fun _ target hi => absurd (List.mem_of_getElem? hi) (h.jumps target), h.pushed⟩

theorem Leads.append (h : Leads start code) (h' : Leads (start + code.length) code') : Leads start (code ++ code') := by
  refine ⟨fun i target hi => ?_, fun u hu => ?_⟩
  · rw [List.length_append]
    by_cases hlt : i < code.length
    · rw [List.getElem?_append_left hlt] at hi
      have hjump := h.jumps i target hi
      omega
    · rw [List.getElem?_append_right (Nat.le_of_not_lt hlt)] at hi
      have hjump := h'.jumps _ target hi
      omega
  · rw [Template.pushed_append] at hu
    exact (List.mem_append.1 hu).elim (h.pushed u) (h'.pushed u)

theorem Leads.branch (h : Leads (start + 1) code) : Leads start (.jumpIfFalse (start + 1 + code.length) :: code) := by
  refine ⟨fun i target hi => ?_, h.pushed⟩
  rw [List.length_cons]
  cases i with
  | zero =>
    obtain rfl : start + 1 + code.length = target := Instruction.jumpIfFalse.inj (Option.some.inj hi)
    omega
  | succ i =>
    have hjump := h.jumps i target hi
    omega

/-- one instruction that is no jump and pushes no template -/
theorem straight_single {i : Instruction} (hjump : ∀ target, i ≠ .jumpIfFalse target)
    (hpush : ∀ t, i ≠ .push (.function t)) : Straight [i] := by
  refine ⟨fun target hmem => hjump target (List.mem_singleton.1 hmem).symm, fun u hu => ?_⟩
  cases i with
  | push c =>
    cases c with
    | function t => exact absurd rfl (hpush t)
    | _ => cases hu
  | _ => cases hu

theorem straight_fetches (module : String) (names : List (String × Cell)) : Straight (Bound.fetches module names) := by
  induction names with
  | nil => exact ⟨fun _ h => (nomatch h), fun _ h => (nomatch h)⟩
  | cons item names ih =>
    have hload : Straight [.loadImport module item.1] := straight_single (by simp) (by simp)
    have hstore : Straight [.store item.2] := straight_single (by simp) (by simp)
    exact hload.append (hstore.append ih)

theorem straight_reserves (cells : List Cell) : Straight (cells.map .reserve) := by
  induction cells with
  | nil => exact ⟨fun _ h => (nomatch h), fun _ h => (nomatch h)⟩
  | cons cell cells ih =>
    have hreserve : Straight [.reserve cell] := straight_single (by simp) (by simp)
    exact hreserve.append ih

/-- a body between the slots for its variables and its end -/
theorem template_forward {id : Nat} {parameters locals : List Cell} {body ending : Code}
    (hbody : Leads locals.length body) (hending : Straight ending) (hne : 0 < ending.length) :
    Template.Forward ⟨id, parameters, locals.map .reserve ++ body ++ ending⟩ := by
  have hslots : Leads 0 (locals.map .reserve) := (straight_reserves locals).leads 0
  have hstart : Leads 0 (locals.map .reserve ++ body) := by
    refine hslots.append ?_
    rw [List.length_map, Nat.zero_add]
    exact hbody
  refine ⟨fun i target hi => ?_, fun u hu => ?_⟩
  · dsimp only at hi ⊢
    rw [List.length_append]
    by_cases hlt : i < (locals.map Instruction.reserve ++ body).length
    · rw [List.getElem?_append_left hlt] at hi
      have hjump := hstart.jumps i target hi
      omega
    · rw [List.getElem?_append_right (Nat.le_of_not_lt hlt)] at hi
      exact absurd (List.mem_of_getElem? hi) (hending.jumps target)
  · unfold Template.nested at hu
    rw [Template.pushed_append] at hu
    exact (List.mem_append.1 hu).elim (hstart.pushed u) (hending.pushed u)

theorem straight_ending (isModule : Bool) : Straight (Compile.ending isModule) := by
  cases isModule with
  | true => exact straight_single (by simp) (by simp)
  | false =>
    have hpush : Straight [.push .none] := straight_single (by simp) (by simp)
    exact hpush.append (straight_single (by simp) (by simp))

end Code

namespace Bound

mutual

theorem Expr.straight (e : Expr) : Code.Straight e.code := by
  cases e with
  | number value => exact Code.straight_single (by simp) (by simp)
  | text value => exact Code.straight_single (by simp) (by simp)
  | truth value => exact Code.straight_single (by simp) (by simp)
  | read cell => exact Code.straight_single (by simp) (by simp)
  | self => exact Code.straight_single (by simp) (by simp)
  | list items => exact (Expr.straightOf items).append (Code.straight_single (by simp) (by simp))
  | function f =>
    refine ⟨by simp [Expr.code], fun u hu => ?_⟩
    obtain rfl : u = f.template false := List.mem_singleton.1 hu
    exact f.forward false
  | call callee arguments =>
    exact ((Expr.straightOf arguments).append callee.straight).append (Code.straight_single (by simp) (by simp))
  | assign cell value =>
    have hstore : Code.Straight [.store cell] := Code.straight_single (by simp) (by simp)
    exact value.straight.append (hstore.append (Code.straight_single (by simp) (by simp)))
  | binary op left right =>
    exact (left.straight.append right.straight).append (Code.straight_single (by simp) (by simp))
  | subscript target index =>
    exact (target.straight.append index.straight).append (Code.straight_single (by simp) (by simp))
termination_by structural e

theorem Expr.straightOf (es : List Expr) : Code.Straight (Expr.codeOf es) := by
  cases es with
  | nil => exact ⟨fun _ h => (nomatch h), fun _ h => (nomatch h)⟩
  | cons e es => exact e.straight.append (Expr.straightOf es)
termination_by structural es

theorem Stmt.leads (start : Nat) (s : Stmt) : Code.Leads start (s.code start) := by
  cases s with
  | cond condition body => exact (condition.straight.leads start).append (Stmt.leadsOf _ body).branch
  | declare cell value =>
    exact (value.straight.append (Code.straight_single (by simp) (by simp))).leads start
  | giveBack value =>
    cases value with
    | none => exact (Code.straight_ending false).leads start
    | some e => exact (e.straight.append (Code.straight_single (by simp) (by simp))).leads start
  | eval e =>
    have hdrop : Code.Straight (e.code ++ [.pop]) := e.straight.append (Code.straight_single (by simp) (by simp))
    cases e with
    | assign cell value =>
      exact (value.straight.append (Code.straight_single (by simp) (by simp))).leads start
    | _ => exact hdrop.leads start
  | use module names => exact (Code.straight_fetches module names).leads start
termination_by structural s

theorem Stmt.leadsOf (start : Nat) (ss : List Stmt) : Code.Leads start (Stmt.codeOf start ss) := by
  cases ss with
  | nil => exact ⟨fun _ _ h => (nomatch h), fun _ h => (nomatch h)⟩
  | cons s ss => exact (s.leads start).append (Stmt.leadsOf _ ss)
termination_by structural ss

/-- no jump in the template of a body leads back -/
theorem Function.forward (isModule : Bool) (f : Function) : (f.template isModule).Forward := by
  cases f with
  | mk number signature params locals body =>
    have hbody := Stmt.leadsOf locals.length body
    exact (Code.template_forward hbody (Code.straight_ending isModule) (by cases isModule <;> simp [Compile.ending]))
termination_by structural f

end

end Bound

/-! ## Fuel -/

namespace Run

variable {σ : Type} {holds : σ → List Closure} {host : Host σ} {P : Template → Prop} {limit longest : Nat}

/-- a run does not use up fuel for the rest of its own code and for a whole body more in each call that may be open -/
theorem code_ends (hhost : host.Conserves holds) (hP : ∀ t, P t → t.Within longest)
    (hnested : ∀ t, P t → ∀ u ∈ t.nested, P u)
    {fuel depth : Nat} {t : Template} {frame : FrameId} {place : Nat} {stack : Operands} {m : Machine σ} (ht : P t)
    (hstack : ∀ v ∈ stack, v.Only P) (hm : Only P holds limit depth m)
    (hfuel : t.code.length - place + (limit - depth) * (longest + 1) < fuel) :
    match code host fuel t.code frame place stack m with
    | .ok result m' => Only P holds limit depth m' ∧ result.1.Only P
    | .error e _ => e ≠ .outOfFuel := by
  induction fuel generalizing depth t frame place stack m with
  | zero => exact absurd hfuel (Nat.not_lt_zero _)
  | succ fuel ih =>
    rw [code_succ]
    cases hi : t.code[place]? with
    | none => exact ⟨hm, Value.only_of_closures_nil rfl⟩
    | some i =>
      obtain ⟨hplace, _⟩ := List.getElem?_eq_some_iff.1 hi
      have hpush (u : Template) (heq : i = .push (.function u)) : P u :=
        hnested t ht u (Template.mem_pushed (heq ▸ List.mem_of_getElem? hi))
      have hstep := keeps_execute hhost frame hpush hstack m hm
      dsimp only
      cases hx : execute host frame stack i m with
      | error e m => rw [hx] at hstep; exact hstep
      | ok flow m₁ =>
        rw [hx] at hstep
        obtain ⟨hm₁, hflow⟩ := hstep
        cases flow with
        | next rest => exact ih ht hflow hm₁ (by omega)
        | jump target rest =>
          obtain ⟨rfl, hrest⟩ := hflow
          obtain ⟨hjumps, _⟩ := (hP t ht).forward
          have hforward := hjumps place target hi
          exact ih ht hrest hm₁ (by omega)
        | exit value rest => exact ⟨hm₁, hflow.1⟩
        | enter c arguments rest =>
          obtain ⟨hdepth, hc, harguments, hrest⟩ := hflow
          have hopen := keeps_openCall hc harguments m₁ hm₁
          dsimp only [resume]
          cases hcall : openCall c arguments m₁ with
          | error e m => rw [hcall] at hopen; exact hopen
          | ok inner m₂ =>
            rw [hcall] at hopen
            obtain ⟨hm₂, _⟩ := hopen
            -- one body more is open, and there is fuel for it
            have hbudget : (limit - depth) * (longest + 1) = (limit - (depth + 1)) * (longest + 1) + (longest + 1) := by
              rw [← Nat.succ_mul]
              congr 1
              omega
            have hlength := Nat.le_trans (Template.length_le_longest c.template) (hP _ hc).length
            have hentered : Only P holds limit (depth + 1) { m₂ with depth := m₂.depth + 1 } :=
              ⟨hm₂.modules, hm₂.store, hm₂.memory, hm₂.limit, congrArg (· + 1) hm₂.depth⟩
            have hinner := @ih (depth + 1) c.template inner 0 [] _ hc (fun _ h => nomatch h) hentered (by omega)
            dsimp only
            cases hcode : code host fuel c.template.code inner 0 [] { m₂ with depth := m₂.depth + 1 } with
            | error e m => rw [hcode] at hinner; exact hinner
            | ok result m₃ =>
              rw [hcode] at hinner
              obtain ⟨hm₃, hvalue⟩ := hinner
              have hleft : Only P holds limit depth { m₃ with depth := m₃.depth - 1 } :=
                ⟨hm₃.modules, hm₃.store, hm₃.memory, hm₃.limit, by rw [hm₃.depth]; rfl⟩
              exact ih ht (List.forall_mem_cons.2 ⟨hvalue, hrest⟩) hleft (by omega)

/-- a template that is run from its start, where no calls are open -/
theorem template_ends (hhost : host.Conserves holds) {t : Template} (ht : t.Within longest) (frame : FrameId)
    {m : Machine σ} (hm : Only (Template.Within longest) holds limit 0 m) {fuel : Nat}
    (hfuel : longest + limit * (longest + 1) < fuel) :
    match code host fuel t.code frame 0 [] m with
    | .ok result m' => Only (Template.Within longest) holds limit 0 m' ∧ result.1.Only (Template.Within longest)
    | .error e _ => e ≠ .outOfFuel := by
  have hlength := Nat.le_trans (Template.length_le_longest t) ht.length
  refine code_ends hhost (fun _ h => h) (fun _ h _ => h.nested) ht (fun _ h => nomatch h) hm ?_
  rw [Nat.sub_zero, Nat.sub_zero]
  omega

end Run

end TypedScript
