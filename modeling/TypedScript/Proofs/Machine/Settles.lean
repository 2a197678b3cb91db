/-
Runs with as much fuel as they need. `Run.Settles` says how a run of code from a place on ends, whatever fuel it is
given, if it is enough; it is found one instruction at a time, from what each leads to.

- `Run.code_succ`: one turn of a run.
- `Run.code_more`: a run that ends before its fuel is used up ends the same way with more fuel.
- `Run.Settles.code_eq`: a run whose fuel is not used up ends as the code settles.
-/
import TypedScript.Machine.Run

namespace TypedScript

namespace Run

variable {σ : Type} {host : Host σ} {body : Code} {frame : FrameId} {place : Nat} {stack : Operands} {m : Machine σ}

/-- how running code ends -/
abbrev Ending (σ : Type) := EStateM.Result Stop (Machine σ) (Value × Operands)

theorem bind_apply {α β : Type} (x : Run σ α) (f : α → Run σ β) (m : Machine σ) :
    (x >>= f) m =
      match x m with
      | .ok a m => f a m
      | .error e m => .error e m := by
  change EStateM.bind x f m = _
  unfold EStateM.bind
  cases x m <;> rfl

theorem modifyGet_apply {α : Type} (f : Machine σ → α × Machine σ) (m : Machine σ) :
    (modifyGet f : Run σ α) m = .ok (f m).1 (f m).2 := rfl

/-- a closure is entered unless as many calls are open as there may be -/
theorem dispatch_closure (host : Host σ) (c : Closure) (count : Nat) (stack : Operands) (m : Machine σ) :
    dispatch host (.closure c) count stack m =
      if m.limit ≤ m.depth then .error (.fault (.callDepthExceeded m.limit)) m
      else
        match stack.popN count with
        | .ok (arguments, rest) => .ok (.enter c arguments rest) m
        | .error fault => .error (.fault fault) m := by
  unfold dispatch
  dsimp only
  rw [bind_apply]
  change (if m.limit ≤ m.depth then _ else _ : Run σ Flow) m = _
  split
  · rfl
  · cases stack.popN count <;> rfl

/-- how a call ends whose code ends so -/
def leave : Ending σ → Ending σ
  | .ok result m => .ok result { m with depth := m.depth - 1 }
  | .error e m => .error e { m with depth := m.depth - 1 }

theorem nested_eq (x : Run σ (Value × Operands)) (m : Machine σ) :
    nested x m = leave (x { m with depth := m.depth + 1 }) := by
  unfold nested leave
  cases x { m with depth := m.depth + 1 } <;> rfl

/-- what a run comes to after an instruction, where `run` is how it goes on -/
def resume (host : Host σ) (fuel : Nat) (body : Code) (frame : FrameId) (place : Nat) :
    EStateM.Result Stop (Machine σ) Flow → Ending σ
  | .error e m => .error e m
  | .ok (.next stack) m => code host fuel body frame (place + 1) stack m
  | .ok (.jump target stack) m => code host fuel body frame target stack m
  | .ok (.exit value stack) m => .ok (value, stack) m
  | .ok (.enter c arguments stack) m =>
    match openCall c arguments m with
    | .error e m => .error e m
    | .ok inner m =>
      match leave (code host fuel c.template.code inner 0 [] { m with depth := m.depth + 1 }) with
      | .error e m => .error e m
      | .ok (value, _) m => code host fuel body frame (place + 1) (value :: stack) m

/-- one turn of a run -/
theorem code_succ (host : Host σ) (fuel : Nat) (body : Code) (frame : FrameId) (place : Nat) (stack : Operands)
    (m : Machine σ) :
    code host (fuel + 1) body frame place stack m =
      match body[place]? with
      | none => .ok (.none, stack) m
      | some i => resume host fuel body frame place (execute host frame stack i m) := by
  rw [code]
  cases body[place]? with
  | none => rfl
  | some i =>
    dsimp only
    rw [bind_apply]
    cases execute host frame stack i m with
    | error e m => rfl
    | ok flow m =>
      cases flow with
      | next stack => rfl
      | jump target stack => rfl
      | exit value stack => rfl
      | enter c arguments stack =>
        dsimp only [resume]
        rw [bind_apply]
        cases openCall c arguments m with
        | error e m => rfl
        | ok inner m =>
          dsimp only
          rw [bind_apply, nested_eq]
          cases leave (code host fuel c.template.code inner 0 [] { m with depth := m.depth + 1 }) <;> rfl

/-- running the body of a module is running its code in a new frame -/
theorem evaluate_eq (host : Host σ) (fuel : Nat) (t : Template) (m : Machine σ) :
    t.evaluate host fuel m =
      match code host fuel t.code m.store.newRoot.1 0 [] { m with store := m.store.newRoot.2 } with
      | .ok (result, stack) m' => .ok ⟨result, m.store.newRoot.1, stack⟩ m'
      | .error e m' => .error e m' := by
  change (code host fuel t.code m.store.newRoot.1 0 [] >>= fun x => pure (Evaluation.mk x.1 m.store.newRoot.1 x.2))
    { m with store := m.store.newRoot.2 } = _
  rw [bind_apply]
  cases code host fuel t.code m.store.newRoot.1 0 [] { m with store := m.store.newRoot.2 } <;> rfl

/-! ## Enough fuel -/

/-- a run that ends before its fuel is used up ends the same way with more fuel -/
theorem code_more {fuel : Nat} {r : Ending σ} (h : code host fuel body frame place stack m = r)
    (hr : ∀ m, r ≠ .error .outOfFuel m) : code host (fuel + 1) body frame place stack m = r := by
  induction fuel generalizing body frame place stack m r with
  | zero => exact absurd h.symm (hr m)
  | succ fuel ih =>
    rw [code_succ] at h ⊢
    cases hi : body[place]? with
    | none => rw [hi] at h; exact h
    | some i =>
      rw [hi] at h
      dsimp only at h ⊢
      cases hx : execute host frame stack i m with
      | error e m => rw [hx] at h; exact h
      | ok flow m =>
        rw [hx] at h
        cases flow with
        | next stack => exact ih h hr
        | jump target stack => exact ih h hr
        | exit value stack => exact h
        | enter c arguments stack =>
          dsimp only [resume] at h ⊢
          cases hopen : openCall c arguments m with
          | error e m => rw [hopen] at h; exact h
          | ok inner m =>
            rw [hopen] at h
            dsimp only at h ⊢
            -- the call's own code has not used up the fuel, since the run has not
            have hinner : code host (fuel + 1) c.template.code inner 0 [] { m with depth := m.depth + 1 } =
                code host fuel c.template.code inner 0 [] { m with depth := m.depth + 1 } := by
              refine ih rfl fun m' hout => ?_
              rw [hout] at h
              exact hr _ h.symm
            rw [hinner]
            cases hleave : leave (code host fuel c.template.code inner 0 [] { m with depth := m.depth + 1 }) with
            | error e m => rw [hleave] at h; exact h
            | ok result m => rw [hleave] at h; exact ih h hr

theorem code_enough {fuel more : Nat} {r : Ending σ} (hle : fuel ≤ more)
    (h : code host fuel body frame place stack m = r) (hr : ∀ m, r ≠ .error .outOfFuel m) :
    code host more body frame place stack m = r := by
  induction hle with
  | refl => exact h
  | step _ ih => exact code_more ih hr

/-- code ends so from a place on, whatever fuel it is given, if it is enough -/
def Settles (host : Host σ) (body : Code) (frame : FrameId) (place : Nat) (stack : Operands) (m : Machine σ)
    (r : Ending σ) : Prop :=
  ∃ enough, ∀ fuel, enough ≤ fuel → code host fuel body frame place stack m = r

/-- a run whose fuel is not used up ends as the code settles -/
theorem Settles.code_eq {r : Ending σ} (h : Settles host body frame place stack m r) {fuel : Nat}
    (hfuel : ∀ m', code host fuel body frame place stack m ≠ .error .outOfFuel m') :
    code host fuel body frame place stack m = r := by
  obtain ⟨enough, henough⟩ := h
  rw [← henough (max enough fuel) (Nat.le_max_left _ _)]
  exact (code_enough (Nat.le_max_right _ _) rfl hfuel).symm

variable {i : Instruction} {r : Ending σ}

/-- what one instruction leads to, if the fuel is enough -/
theorem settles_turn (n : Nat) (hi : body[place]? = some i)
    (h : ∀ fuel, n ≤ fuel → resume host fuel body frame place (execute host frame stack i m) = r) :
    Settles host body frame place stack m r := by
  refine ⟨n + 1, fun fuel hfuel => ?_⟩
  obtain ⟨fuel, rfl⟩ := Nat.exists_eq_add_of_le' (Nat.le_of_add_left_le hfuel)
  rw [code_succ, hi]
  exact h fuel (Nat.le_of_succ_le_succ hfuel)

theorem settles_next {stack' : Operands} {m' : Machine σ} (hi : body[place]? = some i)
    (hx : execute host frame stack i m = .ok (.next stack') m')
    (h : Settles host body frame (place + 1) stack' m' r) : Settles host body frame place stack m r := by
  obtain ⟨n, hn⟩ := h
  refine settles_turn n hi fun fuel hfuel => ?_
  rw [hx]
  exact hn fuel hfuel

theorem settles_jump {target : Nat} {stack' : Operands} {m' : Machine σ} (hi : body[place]? = some i)
    (hx : execute host frame stack i m = .ok (.jump target stack') m')
    (h : Settles host body frame target stack' m' r) : Settles host body frame place stack m r := by
  obtain ⟨n, hn⟩ := h
  refine settles_turn n hi fun fuel hfuel => ?_
  rw [hx]
  exact hn fuel hfuel

theorem settles_exit {value : Value} {stack' : Operands} {m' : Machine σ} (hi : body[place]? = some i)
    (hx : execute host frame stack i m = .ok (.exit value stack') m') :
    Settles host body frame place stack m (.ok (value, stack') m') := by
  refine settles_turn 0 hi fun fuel _ => ?_
  rw [hx]
  rfl

theorem settles_error {e : Stop} {m' : Machine σ} (hi : body[place]? = some i)
    (hx : execute host frame stack i m = .error e m') : Settles host body frame place stack m (.error e m') := by
  refine settles_turn 0 hi fun fuel _ => ?_
  rw [hx]
  rfl

/-- a call, whose own code settles -/
theorem settles_enter {c : Closure} {arguments : List Value} {stack' : Operands} {inner : FrameId}
    {m₁ m₂ : Machine σ} {called : Ending σ} (hi : body[place]? = some i)
    (hx : execute host frame stack i m = .ok (.enter c arguments stack') m₁)
    (hopen : openCall c arguments m₁ = .ok inner m₂)
    (hcall : Settles host c.template.code inner 0 [] { m₂ with depth := m₂.depth + 1 } called)
    (h : match leave called with
      | .error e m => r = .error e m
      | .ok (value, _) m => Settles host body frame (place + 1) (value :: stack') m r) :
    Settles host body frame place stack m r := by
  obtain ⟨n, hn⟩ := hcall
  cases hleave : leave called with
  | error e m =>
    rw [hleave] at h
    refine settles_turn n hi fun fuel hfuel => ?_
    rw [hx]
    dsimp only [resume]
    rw [hopen]
    dsimp only
    rw [hn fuel hfuel, hleave]
    exact h.symm
  | ok result m =>
    rw [hleave] at h
    obtain ⟨k, hk⟩ := h
    refine settles_turn (max n k) hi fun fuel hfuel => ?_
    rw [hx]
    dsimp only [resume]
    rw [hopen]
    dsimp only
    rw [hn fuel (Nat.le_trans (Nat.le_max_left _ _) hfuel), hleave]
    exact hk fuel (Nat.le_trans (Nat.le_max_right _ _) hfuel)

end Run

end TypedScript
