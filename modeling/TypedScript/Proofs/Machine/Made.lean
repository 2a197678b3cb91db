/-
Functions and the machine that they were made on. Each is over one of its frames and has an identity that the machine
gave out (`Store.Made`). With a host that hands on none but those it was given and its own (`Host.Owns`) no others come
about while the body of a module is run, and none is left where the run stops without a value (`Machine.Whole`).

- `Moment.whole_lasting`: at each moment of a run all functions that are around were made on the machine.
- `Run.execute_error`: an instruction that stops a run leaves the machine as it was, but for what the host remembers.
- `Machine.Whole.evaluate`: however the body of a module ends, the functions around afterwards were made on the machine.
-/
import TypedScript.Proofs.Machine.Alike
import TypedScript.Proofs.Machine.Around
import TypedScript.Proofs.Machine.Steady

namespace TypedScript

variable {σ : Type} {holds : σ → List Closure} {host : Host σ} {m m' : Machine σ} {q last : Moment σ} {c : Closure}

/-- every function that is around was made on the machine -/
def Machine.Whole (holds : σ → List Closure) (m : Machine σ) : Prop := ∀ c, m.Around holds c → m.store.Made c

/-- the functions that a host hands on are those it is given and those it holds; what it holds at first is its own -/
structure Host.Owns (host : Host σ) (holds : σ → List Closure) (memory : σ) : Prop where
  passes : host.Passes holds
  store : host.store.Closed
  held : ∀ c ∈ holds memory, host.store.Made c

/-- a host that makes no functions and holds none has none of its own -/
theorem Host.Conserves.owns (h : host.Conserves holds) {memory : σ} (hmemory : holds memory = []) :
    host.Owns holds memory := by
  obtain ⟨hstore, hanswer, hheld⟩ := h
  refine ⟨⟨hanswer, hheld⟩, ⟨fun i j v hv => ?_, fun i c hc => ?_⟩, fun c hc => ?_⟩
  · rw [hstore] at hv
    cases hv
  · rw [hstore] at hc
    cases hc
  · rw [hmemory] at hc
    cases hc

/-- what was made on a machine was made on it later on -/
theorem Machine.Later.made (h : m.Later m') (hc : m.store.Made c) : m'.store.Made c :=
  ⟨Nat.lt_of_lt_of_le hc.1 h.frames, Nat.lt_of_lt_of_le hc.2 h.identities⟩

/-! ## Moments -/

namespace Moment

/-- every function that is around at a moment was made on the machine, which has the frame of the moment -/
structure Whole (holds : σ → List Closure) (q : Moment σ) : Prop where
  frame : q.frame < q.machine.store.frames.size
  made : ∀ c, q.Around holds c → q.machine.store.Made c

theorem Whole.does (h : q.Whole holds) (hhost : host.Passes holds) {i : Instruction} {flow : Flow}
    (hdoes : q.Does host i flow m) (hc : c ∈ Value.closuresOf flow.values ∨ m.Around holds c) : m.store.Made c := by
  rcases hdoes.around hhost hc with hc | ⟨_, hframe, hidentity, hnext⟩
  · exact hdoes.later.made (h.made c hc)
  · refine ⟨?_, ?_⟩
    · rw [hframe]
      exact Nat.lt_of_lt_of_le h.frame hdoes.later.frames
    · rw [hidentity, hnext]
      exact Nat.lt_succ_self _

theorem Whole.onward (h : q.Whole holds) (hhost : host.Passes holds) {i : Instruction} {flow : Flow}
    (hdoes : q.Does host i flow m) (place : Nat) {stack : Operands} (hstack : flow.values = stack) :
    (q.onward place stack m).Whole holds ∧ q.machine.Later m := by
  refine ⟨⟨Nat.lt_of_lt_of_le h.frame hdoes.later.frames, fun c hc => h.does hhost hdoes ?_⟩, hdoes.later⟩
  rw [hstack]
  exact hc

/-- every step of a run makes functions on the machine, if it makes any -/
theorem whole_lasting (hhost : host.Passes holds) :
    Lasting host (fun _ => True) (fun _ q => q.Whole holds) fun q q' => q.machine.Later q'.machine where
  refl q := .refl q.machine
  trans := .trans
  next _ h hdoes := h.onward hhost hdoes _ rfl
  jump _ h hdoes := h.onward hhost hdoes _ rfl
  enter {depth q c arguments rest inner m} _ h henters := by
    obtain ⟨hlater, _⟩ := henters.later
    refine ⟨?_, fun d hd => hlater.made (h.made d (henters.around hhost (Or.inr (Or.inl ?_))))⟩
    · obtain ⟨rfl, rfl⟩ := henters.opened
      change q.machine.store.frames.size < ((q.machine.store.newCall c).2.fill _ _).frames.size
      rw [Store.size_fill]
      exact Nat.lt_of_lt_of_eq (Nat.lt_succ_self _) (Store.size_addFrame _ _).symm
    · exact hd.elim (fun h => nomatch h) Machine.Around.withDepth
  back {depth q c arguments rest inner m last v left m'} _ h henters _ hlast hstays hleaves := by
    obtain rfl := hleaves.machine_eq
    obtain ⟨hentered, _⟩ := henters.later
    have hlater : q.machine.Later (q.returned v rest last.machine).machine := hentered.trans hstays.nested
    refine ⟨⟨Nat.lt_of_lt_of_le h.frame hlater.frames, fun d hd => ?_⟩, hlater⟩
    have hleft (hd : d ∈ v.closures ∨ last.machine.Around holds d) : last.machine.store.Made d :=
      hlast.made d (hleaves.around hhost hd)
    rcases hd with hd | hd
    · rcases List.mem_append.1 hd with hd | hd
      · exact hleft (Or.inl hd)
      · exact hlater.made (h.made d (henters.around hhost (Or.inl hd)))
    · exact hleft (Or.inr hd.withDepth)

end Moment

/-! ## Faults -/

namespace Run

variable {α β : Type}

/-- a computation that leaves the machine as it is where it stops -/
def Spares (x : Run σ α) : Prop := ∀ m e m', x m = .error e m' → m' = m

theorem spares_pure (a : α) : Spares (σ := σ) (pure a) := fun _ _ _ h => nomatch h

theorem spares_throw (e : Stop) : Spares (σ := σ) (α := α) (throw e) := fun _ _ _ h => by cases h; rfl

theorem spares_modifyGet (f : Machine σ → α × Machine σ) : Spares (modifyGet f) := fun _ _ _ h => nomatch h

theorem spares_ofExcept {f : α → Run σ β} (e : Except RuntimeFault α) (hf : ∀ a, Spares (f a)) :
    Spares (ofExcept e >>= f) := by
  intro m stop m' h
  rw [ofExcept_bind] at h
  cases e with
  | error fault => cases h; rfl
  | ok a => exact hf a m stop m' h

theorem spares_get {f : Machine σ → Run σ β} (hf : ∀ m, Spares (f m)) : Spares (get >>= f) := fun m => hf m m

/-- what is done last stops nothing -/
theorem Spares.bind_pure {x : Run σ α} (hx : Spares x) (f : α → β) : Spares (x >>= fun a => pure (f a)) := by
  intro m e m' h
  rw [bind_apply] at h
  cases hresult : x m with
  | error e' n =>
    rw [hresult] at h
    cases h
    exact hx m e m' hresult
  | ok a n =>
    rw [hresult] at h
    cases h

theorem spares_assign (frame : FrameId) (cell : Cell) (v : Value) : Spares (σ := σ) (assign frame cell v) := by
  intro m e m' h
  unfold assign at h
  split at h
  · cases h
  · cases h
    rfl

/-- an instruction that is no call leaves the machine as it was where it stops the run -/
theorem spares_execute (host : Host σ) (frame : FrameId) (stack : Operands) {i : Instruction}
    (hi : ∀ count, i ≠ .dispatch count) : Spares (execute host frame stack i) := by
  cases i with
  | halt => exact spares_pure _
  | giveBack => exact spares_ofExcept _ fun _ => spares_pure _
  | push c =>
    refine Spares.bind_pure ?_ _
    cases c with
    | function t => exact spares_modifyGet _
    | _ => exact spares_pure _
  | pop => exact spares_ofExcept _ fun _ => spares_pure _
  | reserve cell => exact (spares_modifyGet _).bind_pure _
  | load cell => exact spares_get fun m => spares_ofExcept _ fun _ => spares_pure _
  | store cell => exact spares_ofExcept _ fun found => (spares_assign frame cell found.1).bind_pure _
  | loadSelf =>
    refine spares_get fun m => ?_
    cases m.store.running? frame with
    | none => exact spares_throw _
    | some c => exact spares_pure _
  | jumpIfFalse target =>
    refine spares_ofExcept _ fun found => spares_ofExcept _ fun test => ?_
    cases test with
    | true => exact spares_pure _
    | false => exact spares_pure _
  | dispatch count => exact absurd rfl (hi count)
  | makeList count => exact spares_ofExcept _ fun _ => spares_pure _
  | subscript => exact spares_ofExcept _ fun _ => spares_ofExcept _ fun _ => spares_ofExcept _ fun _ => spares_pure _
  | loadImport module name =>
    refine spares_get fun m => ?_
    cases m.export? module name with
    | none => exact spares_throw _
    | some v => exact spares_pure _
  | binary op => exact spares_ofExcept _ fun _ => spares_ofExcept _ fun _ => spares_ofExcept _ fun _ => spares_pure _

/-- an instruction that stops a run leaves the machine as it was, but for what the host remembers of a call -/
theorem execute_error {frame : FrameId} {stack : Operands} {i : Instruction} {e : Stop}
    (h : execute host frame stack i m = .error e m') :
    m' = m ∨ ∃ id arguments, (∀ c ∈ Value.closuresOf arguments, c ∈ Value.closuresOf stack) ∧
      m' = { m with memory := (host.respond id arguments m.memory).2 } := by
  by_cases hi : ∀ count, i ≠ .dispatch count
  · exact Or.inl (spares_execute host frame stack hi m e m' h)
  obtain ⟨count, heq⟩ := not_forall.1 hi
  obtain rfl := not_not.1 heq
  cases stack with
  | nil => exact Or.inl (by cases h; rfl)
  | cons callee stack =>
    cases callee with
    | closure c =>
      rw [execute_closure] at h
      split at h
      · exact Or.inl (by cases h; rfl)
      · split at h
        · cases h
        · exact Or.inl (by cases h; rfl)
    | builtin b =>
      rw [execute_builtin] at h
      cases hpop : Operands.popN stack count with
      | error fault =>
        rw [hpop] at h
        exact Or.inl (by cases h; rfl)
      | ok given =>
        obtain ⟨arguments, rest⟩ := given
        refine Or.inr ⟨b.id, arguments, fun c hc => ?_, ?_⟩
        · refine List.mem_append_right _ (Operands.mem_of_popN hpop ?_)
          obtain ⟨v, hv, hmem⟩ := Value.mem_closuresOf.1 hc
          exact Value.mem_closuresOf.2 ⟨v, List.mem_append_left _ hv, hmem⟩
        · rw [hpop] at h
          dsimp only at h
          split at h
          · cases h
          · next heq =>
            cases h
            rw [heq]
    | _ => exact Or.inl (by cases h; rfl)

end Run

theorem Moment.Stops.later {e : Stop} (h : last.Stops host e m) : last.machine.Later m := by
  obtain ⟨_, rfl⟩ | ⟨i, _, hx⟩ := h
  · exact .refl _
  · have hsteady := Run.steady_execute host last.frame last.stack i last.machine
    rw [hx] at hsteady
    exact hsteady

/-- where a run stops without a value, no function is left that was not around -/
theorem Moment.Stops.around {e : Stop} (h : last.Stops host e m) (hhost : host.Passes holds) (hc : m.Around holds c) :
    last.Around holds c := by
  obtain ⟨_, rfl⟩ | ⟨i, _, hx⟩ := h
  · exact Or.inr hc
  obtain rfl | ⟨id, arguments, harguments, rfl⟩ := Run.execute_error hx
  · exact Or.inr hc
  · cases hc with
    | exported found mem => exact Or.inr (.exported found mem)
    | kept found mem => exact Or.inr (.kept found mem)
    | called running => exact Or.inr (.called running)
    | held mem => exact (hhost.memory id arguments _ c mem).imp (harguments c) .held

/-! ## Bodies of modules -/

namespace Machine.Whole

variable {holds : σ → List Closure}

theorem new {memory : σ} (hhost : host.Owns holds memory) (limit : Nat) :
    (Machine.new host limit memory).Whole holds := by
  intro c hc
  cases hc with
  | exported found mem => cases found
  | kept found mem => exact hhost.store.slots _ _ _ found c mem
  | called running => exact hhost.store.running _ _ running
  | held mem => exact hhost.held c mem

/-- the functions among the exports of a module that is registered were made on the machine -/
theorem register (h : m.Whole holds) {module : String} {exports : Exports}
    (hexports : ∀ name v, exports.find? name = some v → ∀ c ∈ v.closures, m.store.Made c) :
    (m.register module exports).Whole holds := by
  intro c hc
  rcases hc.register with hc | ⟨name, v, hv, hmem⟩
  · exact h c hc
  · exact hexports name v hv c hmem

theorem registerNative (h : m.Whole holds) (native : NativeModule) : (m.registerNative native).Whole holds :=
  fun c hc => h c hc.registerNative

theorem started (h : m.Whole holds) (t : Template) : (Moment.started t m).Whole holds := by
  have hlater : m.Later (Moment.started t m).machine := .add m _
  refine ⟨?_, fun c hc => hlater.made (h c (Moment.around_started hc))⟩
  exact Nat.lt_of_lt_of_eq (Nat.lt_succ_self _) (Store.size_addFrame _ _).symm

/-- however the body of a module ends, the functions that are around afterwards were made on the machine -/
theorem evaluate (h : m.Whole holds) (hhost : host.Passes holds) (fuel : Nat) (t : Template) :
    (Run.last (t.evaluate host fuel m)).Whole holds := by
  have hstarted := h.started t
  intro c hc
  rw [Moment.evaluate_eq] at hc ⊢
  cases hrun : (Moment.started t m).run host fuel with
  | ok result m' =>
    rw [hrun] at hc
    obtain ⟨last, _, hlast, _, hleaves⟩ :=
      (Moment.whole_lasting hhost).exists_last 0 (fun _ _ _ => trivial) hstarted hrun
    obtain rfl := hleaves.machine_eq
    exact hlast.made c (Or.inr hc)
  | error e m' =>
    rw [hrun] at hc
    obtain ⟨n, last, m₁, depth, hmet, hstops, rfl⟩ := Moment.exists_stop hrun
    have hlast := (Moment.whole_lasting hhost).meets 0 (fun _ _ _ => trivial) hstarted hmet
    exact hstops.later.made (hlast.made c (hstops.around hhost hc.withDepth))

/-- all that a machine leads to was made on it, if all functions around were -/
theorem closed (h : m.Whole holds) : m.Closed :=
  ⟨fun _ _ _ hv c hc => h c (.exported hv hc), ⟨fun _ _ _ hv c hc => h c (.kept hv hc), fun _ c hc => h c (.called hc)⟩⟩

end Machine.Whole

end TypedScript
