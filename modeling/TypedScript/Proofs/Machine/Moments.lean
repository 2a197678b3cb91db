/-
The moments of a run. A moment is a body in the middle of being run, with the machine around it. From one moment a run
goes onward to the next one of the same activation, over a call that comes back if there is one (`Onward`), or inward to
the start of a call (`Inward`); `Meets` counts the calls that are open on the way.

- `Lasting.meets`: what each step keeps is true of every moment that a run meets.
- `Lasting.exists_last`: a run that gives a value comes to a moment that leaves its activation with that value.
- `Moment.exists_stop`, `Moment.exists_fault`: a run that gives no value comes to a moment at which it stops; one that
  faults comes to a moment whose instruction faults.
-/
import TypedScript.Proofs.Direct.Lower

namespace TypedScript

/-- a template being run in a frame: the place of the next instruction and the operands, with the machine around -/
structure Moment (σ : Type) where
  template : Template
  frame : FrameId
  place : Nat
  stack : Operands
  machine : Machine σ

namespace Moment

variable {σ : Type}

def instruction? (q : Moment σ) : Option Instruction := q.template.code[q.place]?

/-- running on from a moment -/
def run (host : Host σ) (fuel : Nat) (q : Moment σ) : Run.Ending σ :=
  Run.code host fuel q.template.code q.frame q.place q.stack q.machine

/-- the start of a call, when the frame of the call is made -/
def entered (c : Closure) (inner : FrameId) (m : Machine σ) : Moment σ :=
  ⟨c.template, inner, 0, [], { m with depth := m.depth + 1 }⟩

/-- a later moment of the same activation -/
def onward (q : Moment σ) (place : Nat) (stack : Operands) (m : Machine σ) : Moment σ :=
  ⟨q.template, q.frame, place, stack, m⟩

/-- the moment after a call that gave a value -/
def returned (q : Moment σ) (v : Value) (rest : Operands) (m : Machine σ) : Moment σ :=
  q.onward (q.place + 1) (v :: rest) { m with depth := m.depth - 1 }

/-- the next instruction comes to a flow and leaves a machine -/
def Does (host : Host σ) (q : Moment σ) (i : Instruction) (flow : Flow) (m : Machine σ) : Prop :=
  q.instruction? = some i ∧ Run.execute host q.frame q.stack i q.machine = .ok flow m

/-- the next instruction calls a function, whose frame is made -/
def Enters (host : Host σ) (q : Moment σ) (c : Closure) (arguments : List Value) (rest : Operands) (inner : FrameId)
    (m : Machine σ) : Prop :=
  ∃ i m', q.Does host i (.enter c arguments rest) m' ∧ Run.openCall c arguments m' = .ok inner m

/-- the activation ends with a value and leaves operands and a machine behind -/
def Leaves (host : Host σ) (q : Moment σ) (v : Value) (left : Operands) (m : Machine σ) : Prop :=
  (q.instruction? = none ∧ v = .none ∧ left = q.stack ∧ m = q.machine) ∨ ∃ i, q.Does host i (.exit v left) m

/-- a run stops here, with a machine that it leaves: there is no fuel, or the next instruction faults -/
def Stops (host : Host σ) (q : Moment σ) (e : Stop) (m : Machine σ) : Prop :=
  (e = .outOfFuel ∧ m = q.machine) ∨
    ∃ i, q.instruction? = some i ∧ Run.execute host q.frame q.stack i q.machine = .error e m

/-- the next instruction faults -/
def Faults (host : Host σ) (q : Moment σ) (fault : RuntimeFault) : Prop :=
  ∃ i m, q.instruction? = some i ∧ Run.execute host q.frame q.stack i q.machine = .error (.fault fault) m

end Moment

variable {σ : Type} {host : Host σ} {q q' q₁ q₂ start : Moment σ} {n k : Nat}

/-- the next moment of the same activation -/
inductive Onward (host : Host σ) (q : Moment σ) : Moment σ → Prop
  | next {i : Instruction} {stack : Operands} {m : Machine σ} (does : q.Does host i (.next stack) m) :
      Onward host q (q.onward (q.place + 1) stack m)
  | jump {i : Instruction} {target : Nat} {stack : Operands} {m : Machine σ}
      (does : q.Does host i (.jump target stack) m) :
      Onward host q (q.onward target stack m)
  | back {c : Closure} {arguments : List Value} {rest left : Operands} {inner : FrameId} {m m' : Machine σ} {v : Value}
      (fuel : Nat) (enters : q.Enters host c arguments rest inner m)
      (returns : (Moment.entered c inner m).run host fuel = .ok (v, left) m') : Onward host q (q.returned v rest m')

/-- the first moment of a call -/
inductive Inward (host : Host σ) (q : Moment σ) : Moment σ → Prop
  | enter {c : Closure} {arguments : List Value} {rest : Operands} {inner : FrameId} {m : Machine σ}
      (enters : q.Enters host c arguments rest inner m) : Inward host q (.entered c inner m)

/-- the moments that a run meets, each with the number of calls that were made on the way and are still open -/
inductive Meets (host : Host σ) (start : Moment σ) : Nat → Moment σ → Prop
  | start : Meets host start 0 start
  | onward {n : Nat} {q q' : Moment σ} (met : Meets host start n q) (step : Onward host q q') : Meets host start n q'
  | inward {n : Nat} {q q' : Moment σ} (met : Meets host start n q) (call : Inward host q q') :
      Meets host start (n + 1) q'

theorem Meets.trans (h : Meets host start n q) (h' : Meets host q k q') : Meets host start (n + k) q' := by
  induction h' with
  | start => exact h
  | onward _ step ih => exact ih.onward step
  | inward _ call ih => exact ih.inward call

/-! ## Calls -/

namespace Run

/-- the frame of a call can always be made: it is a new one, which has the arguments -/
theorem openCall_eq (c : Closure) (arguments : List Value) (m : Machine σ) :
    openCall c arguments m = .ok m.store.frames.size { m with
      store := (m.store.newCall c).2.fill m.store.frames.size
        ((c.template.parameters.zip arguments).map fun p => (p.1, some p.2)) } := by
  unfold openCall
  rw [bind_apply, modifyGet_apply]
  dsimp only
  rw [bind_apply, show (m.store.newCall c).1 = m.store.frames.size from rfl, Direct.bindArguments_eq]
  · rfl
  · change m.store.frames.size < (m.store.frames.push _).size
    rw [Array.size_push]
    exact Nat.lt_succ_self _

theorem openCall_ok (c : Closure) (arguments : List Value) (m : Machine σ) :
    ∃ m', openCall c arguments m = .ok m.store.frames.size m' := ⟨_, openCall_eq c arguments m⟩

end Run

namespace Moment

/-- one turn of a run -/
theorem run_succ (host : Host σ) (fuel : Nat) (q : Moment σ) :
    q.run host (fuel + 1) =
      match q.instruction? with
      | none => .ok (.none, q.stack) q.machine
      | some i =>
        match Run.execute host q.frame q.stack i q.machine with
        | .error e m => .error e m
        | .ok (.next stack) m => (q.onward (q.place + 1) stack m).run host fuel
        | .ok (.jump target stack) m => (q.onward target stack m).run host fuel
        | .ok (.exit value stack) m => .ok (value, stack) m
        | .ok (.enter c arguments rest) m =>
          match Run.openCall c arguments m with
          | .error e m => .error e m
          | .ok inner m =>
            match (entered c inner m).run host fuel with
            | .error e m => .error e { m with depth := m.depth - 1 }
            | .ok (value, _) m => (q.returned value rest m).run host fuel := by
  unfold run instruction?
  rw [Run.code_succ]
  cases q.template.code[q.place]? with
  | none => rfl
  | some i =>
    dsimp only
    cases Run.execute host q.frame q.stack i q.machine with
    | error e m => rfl
    | ok flow m =>
      cases flow with
      | enter c arguments rest =>
        dsimp only [Run.resume]
        cases Run.openCall c arguments m with
        | error e m => rfl
        | ok inner m =>
          dsimp only [entered]
          cases Run.code host fuel c.template.code inner 0 [] { m with depth := m.depth + 1 } <;> rfl
      | _ => rfl

end Moment

/-! ## Invariants -/

/-- a property of moments and of the calls open at them that every step of a run keeps, together with what stays the
same in an activation; `Known` is what is known already of every moment that is met -/
structure Lasting (host : Host σ) (Known : Moment σ → Prop) (Holds : Nat → Moment σ → Prop)
    (Stays : Moment σ → Moment σ → Prop) : Prop where
  refl : ∀ q, Stays q q
  trans : ∀ {q q' q''}, Stays q q' → Stays q' q'' → Stays q q''
  next : ∀ {depth q i stack m}, Known q → Holds depth q → q.Does host i (.next stack) m →
    Holds depth (q.onward (q.place + 1) stack m) ∧ Stays q (q.onward (q.place + 1) stack m)
  jump : ∀ {depth q i target stack m}, Known q → Holds depth q → q.Does host i (.jump target stack) m →
    Holds depth (q.onward target stack m) ∧ Stays q (q.onward target stack m)
  enter : ∀ {depth q c arguments rest inner m}, Known q → Holds depth q → q.Enters host c arguments rest inner m →
    Holds (depth + 1) (.entered c inner m)
  back : ∀ {depth q c arguments rest inner m last v left m'}, Known q → Holds depth q →
    q.Enters host c arguments rest inner m → Known last → Holds (depth + 1) last → Stays (.entered c inner m) last →
    last.Leaves host v left m' → Holds depth (q.returned v rest m') ∧ Stays q (q.returned v rest m')

namespace Lasting

variable {Known : Moment σ → Prop} {Holds : Nat → Moment σ → Prop} {Stays : Moment σ → Moment σ → Prop}

/-- a run that gives a value comes to a moment that leaves the activation with it, and the property is true of it -/
theorem exists_last (h : Lasting host Known Holds Stays) (depth : Nat) {fuel : Nat} {v : Value}
    {left : Operands} {m : Machine σ}
    (hknown : ∀ n q', Meets host q n q' → Known q') (hq : Holds depth q) (hrun : q.run host fuel = .ok (v, left) m) :
    ∃ last, Meets host q 0 last ∧ Holds depth last ∧ Stays q last ∧ last.Leaves host v left m := by
  induction fuel generalizing depth q v left m with
  | zero => cases hrun
  | succ fuel ih =>
    have hhere := hknown 0 q .start
    -- the rest of the run, from a later moment of the activation
    have hrest {q' : Moment σ} (hstep : Onward host q q') (hq' : Holds depth q' ∧ Stays q q')
        (hrun' : q'.run host fuel = .ok (v, left) m) :
        ∃ last, Meets host q 0 last ∧ Holds depth last ∧ Stays q last ∧ last.Leaves host v left m := by
      have hto := Meets.start.onward hstep
      obtain ⟨last, hmet, hlast, hstays, hleaves⟩ :=
        ih depth (fun n q'' hq'' => hknown (0 + n) q'' (hto.trans hq'')) hq'.1 hrun'
      exact ⟨last, hto.trans hmet, hlast, h.trans hq'.2 hstays, hleaves⟩
    rw [Moment.run_succ] at hrun
    cases hi : q.instruction? with
    | none =>
      rw [hi] at hrun
      cases hrun
      exact ⟨q, .start, hq, h.refl q, Or.inl ⟨hi, rfl, rfl, rfl⟩⟩
    | some i =>
      rw [hi] at hrun
      dsimp only at hrun
      cases hx : Run.execute host q.frame q.stack i q.machine with
      | error e m => rw [hx] at hrun; cases hrun
      | ok flow m₁ =>
        rw [hx] at hrun
        cases flow with
        | next stack => exact hrest (.next ⟨hi, hx⟩) (h.next hhere hq ⟨hi, hx⟩) hrun
        | jump target stack => exact hrest (.jump ⟨hi, hx⟩) (h.jump hhere hq ⟨hi, hx⟩) hrun
        | exit value stack =>
          cases hrun
          exact ⟨q, .start, hq, h.refl q, Or.inr ⟨i, hi, hx⟩⟩
        | enter c arguments rest =>
          obtain ⟨m₂, hopen⟩ := Run.openCall_ok c arguments m₁
          have henters : q.Enters host c arguments rest m₁.store.frames.size m₂ := ⟨i, m₁, ⟨hi, hx⟩, hopen⟩
          dsimp only at hrun
          rw [hopen] at hrun
          dsimp only at hrun
          cases hcall : (Moment.entered c m₁.store.frames.size m₂).run host fuel with
          | error e m₃ => rw [hcall] at hrun; cases hrun
          | ok result m₃ =>
            rw [hcall] at hrun
            have hto := Meets.start.inward (.enter henters)
            obtain ⟨last, hmet, hlast, hstays, hleaves⟩ :=
              ih (depth + 1) (fun n q' hq' => hknown _ q' (hto.trans hq')) (h.enter hhere hq henters) hcall
            have hback := h.back hhere hq henters (hknown _ last (hto.trans hmet)) hlast hstays hleaves
            exact hrest (.back fuel henters hcall) hback hrun

/-- a property that lasts is true of every moment that a run meets -/
theorem meets (h : Lasting host Known Holds Stays) (depth : Nat) (hknown : ∀ n q, Meets host start n q → Known q)
    (hstart : Holds depth start) (hmet : Meets host start n q) : Holds (depth + n) q := by
  induction hmet with
  | start => exact hstart
  | @onward n q q' met step ih =>
    have hhere := hknown n q met
    cases step with
    | next does => exact (h.next hhere ih does).1
    | jump does => exact (h.jump hhere ih does).1
    | back fuel enters returns =>
      have hto := met.inward (.enter enters)
      obtain ⟨last, hlast, hholds, hstays, hleaves⟩ :=
        h.exists_last _ (fun k q' hq' => hknown _ q' (hto.trans hq')) (h.enter hhere ih enters) returns
      exact (h.back hhere ih enters (hknown _ last (hto.trans hlast)) hholds hstays hleaves).1
  | inward met call ih =>
    cases call with
    | enter enters => exact h.enter (hknown _ _ met) ih enters

end Lasting

namespace Moment

/-- a run that gives no value comes to a moment at which it stops, and leaves the machine of that moment, apart from the
count of open calls -/
theorem exists_stop {fuel : Nat} {e : Stop} {m : Machine σ} (h : q.run host fuel = .error e m) :
    ∃ n last m₁ depth, Meets host q n last ∧ last.Stops host e m₁ ∧ m = { m₁ with depth } := by
  induction fuel generalizing q m with
  | zero =>
    cases h
    exact ⟨0, q, q.machine, q.machine.depth, .start, Or.inl ⟨rfl, rfl⟩, rfl⟩
  | succ fuel ih =>
    have hrest {q' : Moment σ} {k : Nat} {m : Machine σ} (hto : Meets host q k q')
        (h' : q'.run host fuel = .error e m) :
        ∃ n last m₁ depth, Meets host q n last ∧ last.Stops host e m₁ ∧ m = { m₁ with depth } := by
      obtain ⟨n, last, m₁, depth, hmet, hstops, hm⟩ := ih h'
      exact ⟨k + n, last, m₁, depth, hto.trans hmet, hstops, hm⟩
    rw [run_succ] at h
    cases hi : q.instruction? with
    | none => rw [hi] at h; cases h
    | some i =>
      rw [hi] at h
      dsimp only at h
      cases hx : Run.execute host q.frame q.stack i q.machine with
      | error e' m₁ =>
        rw [hx] at h
        cases h
        exact ⟨0, q, m, m.depth, .start, Or.inr ⟨i, hi, hx⟩, rfl⟩
      | ok flow m₁ =>
        rw [hx] at h
        cases flow with
        | next stack => exact hrest (Meets.start.onward (.next ⟨hi, hx⟩)) h
        | jump target stack => exact hrest (Meets.start.onward (.jump ⟨hi, hx⟩)) h
        | exit value stack => cases h
        | enter c arguments rest =>
          obtain ⟨m₂, hopen⟩ := Run.openCall_ok c arguments m₁
          have henters : q.Enters host c arguments rest m₁.store.frames.size m₂ := ⟨i, m₁, ⟨hi, hx⟩, hopen⟩
          dsimp only at h
          rw [hopen] at h
          dsimp only at h
          cases hcall : (entered c m₁.store.frames.size m₂).run host fuel with
          | error e' m₃ =>
            rw [hcall] at h
            cases h
            obtain ⟨n, last, m₁, depth, hmet, hstops, rfl⟩ := hrest (Meets.start.inward (.enter henters)) hcall
            exact ⟨n, last, m₁, depth - 1, hmet, hstops, rfl⟩
          | ok result m₃ =>
            rw [hcall] at h
            exact hrest (Meets.start.onward (.back fuel henters hcall)) h

/-- a run that faults comes to a moment whose instruction faults -/
theorem exists_fault {fuel : Nat} {fault : RuntimeFault} {m : Machine σ}
    (h : q.run host fuel = .error (.fault fault) m) : ∃ n last, Meets host q n last ∧ last.Faults host fault := by
  obtain ⟨n, last, m₁, _, hmet, ⟨hout, _⟩ | ⟨i, hi, hx⟩, _⟩ := exists_stop h
  · cases hout
  · exact ⟨n, last, hmet, i, m₁, hi, hx⟩

end Moment

end TypedScript
