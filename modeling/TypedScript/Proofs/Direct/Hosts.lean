/-
Hosts of direct evaluation and of the machine. A host can be made to keep the calls it gets, in their order, with their
arguments (`logged`), which changes nothing it does.

- `exists_conserving_mirror`: every host of the machine that makes no functions of its own has one of direct evaluation
  that does the same.
-/
import TypedScript.Proofs.Direct.Lower
import TypedScript.Proofs.Machine.Functions

namespace TypedScript

/-! ## Calls that a host gets -/

/-- a host that also keeps the calls it gets -/
def Host.logged {σ : Type} (host : Host σ) : Host (σ × List (BuiltinId × List Value)) where
  respond id arguments memory :=
    ((host.respond id arguments memory.1).1,
      ((host.respond id arguments memory.1).2, memory.2 ++ [(id, arguments)]))
  store := host.store

theorem Host.Conserves.logged {σ : Type} {host : Host σ} {holds : σ → List Closure} (h : host.Conserves holds) :
    host.logged.Conserves fun memory => holds memory.1 :=
  ⟨h.store, fun id arguments memory => h.answer id arguments memory.1,
    fun id arguments memory => h.memory id arguments memory.1⟩

namespace Direct

variable {σ τ : Type} {host : Host σ} {machine : TypedScript.Host τ} {view : σ → τ}

/-- a host that also keeps the calls it gets -/
def Host.logged (host : Host σ) : Host (σ × List (BuiltinId × List Val)) where
  respond id arguments memory :=
    ((host.respond id arguments memory.1).1,
      ((host.respond id arguments memory.1).2, memory.2 ++ [(id, arguments)]))

/-- calls of a host as the machine makes them -/
def lowerCalls (calls : List (BuiltinId × List Val)) : List (BuiltinId × List Value) :=
  calls.map fun call => (call.1, call.2.map lower)

/-- keeping the calls on one side does not show on the other -/
theorem Mirrors.logged (h : Mirrors host machine view) : Mirrors host.logged machine fun memory => view memory.1 :=
  fun id arguments memory => h id arguments memory.1

theorem Mirrors.logged_both (h : Mirrors host machine view) :
    Mirrors host.logged machine.logged fun memory => (view memory.1, lowerCalls memory.2) := by
  intro id arguments memory
  have hanswer := h id arguments memory.1
  unfold Host.logged TypedScript.Host.logged lowerCalls
  dsimp only
  rw [hanswer, List.map_append]
  rfl

end Direct

/-! ## Hosts of both kinds -/

namespace Value

variable {φ ψ : Type} (f : φ → ψ)

mutual

theorem closures_map (v : Value φ) : (v.map f).closures = v.closures.map (Closure.map f) := by
  cases v with
  | list items => exact closuresOf_map items
  | _ => rfl
termination_by structural v

theorem closuresOf_map (vs : List (Value φ)) :
    closuresOf (mapItems f vs) = (closuresOf vs).map (Closure.map f) := by
  cases vs with
  | nil => rfl
  | cons v vs => rw [mapItems, closuresOf, closuresOf, closures_map v, closuresOf_map vs, List.map_append]
termination_by structural vs

end

mutual

/-- a value whose functions come from some that are made from something else comes from a value of those -/
theorem exists_map {held : List (Closure φ)} (v : Value ψ) (h : ∀ c ∈ v.closures, c ∈ held.map (Closure.map f)) :
    ∃ w : Value φ, w.map f = v ∧ ∀ c ∈ w.closures, c ∈ held := by
  cases v with
  | list items =>
    obtain ⟨ws, hws, hheld⟩ := exists_mapItems items h
    exact ⟨list ws, congrArg list hws, hheld⟩
  | closure c =>
    obtain ⟨c', hheld, hc'⟩ := List.mem_map.1 (h c List.mem_cons_self)
    exact ⟨closure c', congrArg closure hc', fun other hother => List.mem_singleton.1 hother ▸ hheld⟩
  | none => exact ⟨none, rfl, fun _ h => absurd h List.not_mem_nil⟩
  | int value => exact ⟨int value, rfl, fun _ h => absurd h List.not_mem_nil⟩
  | str value => exact ⟨str value, rfl, fun _ h => absurd h List.not_mem_nil⟩
  | bool value => exact ⟨bool value, rfl, fun _ h => absurd h List.not_mem_nil⟩
  | builtin b => exact ⟨builtin b, rfl, fun _ h => absurd h List.not_mem_nil⟩
termination_by structural v

theorem exists_mapItems {held : List (Closure φ)} (vs : List (Value ψ))
    (h : ∀ c ∈ closuresOf vs, c ∈ held.map (Closure.map f)) :
    ∃ ws : List (Value φ), mapItems f ws = vs ∧ ∀ c ∈ closuresOf ws, c ∈ held := by
  cases vs with
  | nil => exact ⟨[], rfl, fun _ h => absurd h List.not_mem_nil⟩
  | cons v vs =>
    obtain ⟨w, hw, hheld⟩ := exists_map v fun c hc => h c (List.mem_append_left _ hc)
    obtain ⟨ws, hws, hrest⟩ := exists_mapItems vs fun c hc => h c (List.mem_append_right _ hc)
    refine ⟨w :: ws, by rw [mapItems, hw, hws], fun c hc => ?_⟩
    exact (List.mem_append.1 hc).elim (hheld c) (hrest c)
termination_by structural vs

end

end Value

namespace Direct

variable {τ : Type} {machine : TypedScript.Host τ} {holds : τ → List TypedScript.Closure}

/-- a host that makes no functions of its own, where it holds those that are in what it remembers -/
structure Host.Conserves {σ : Type} (holds : σ → List (TypedScript.Closure Bound.Function)) (host : Host σ) : Prop where
  answer : ∀ id arguments memory v, (host.respond id arguments memory).1 = .ok v →
    ∀ c ∈ v.closures, c ∈ Value.closuresOf arguments ∨ c ∈ holds memory
  memory : ∀ id arguments memory, ∀ c ∈ holds (host.respond id arguments memory).2,
    c ∈ Value.closuresOf arguments ∨ c ∈ holds memory

/-- what a host of the machine remembers, and functions from which all those come that it holds -/
structure Memory (holds : τ → List TypedScript.Closure) where
  memory : τ
  functions : List (TypedScript.Closure Bound.Function)
  held : ∀ c ∈ holds memory, c ∈ functions.map (Closure.map (Bound.Function.template false))

/-- every host of the machine that makes no functions of its own has one of direct evaluation that does the same, and
that makes none of its own either -/
theorem exists_conserving_mirror (hhost : machine.Conserves holds) :
    ∃ host : Host (Memory holds), Mirrors host machine Memory.memory ∧ host.Conserves Memory.functions := by
  have hgiven (arguments : List Val) (memory : Memory holds) (c : TypedScript.Closure)
      (hc : c ∈ Value.closuresOf (arguments.map lower) ∨ c ∈ holds memory.memory) :
      c ∈ (Value.closuresOf arguments ++ memory.functions).map (Closure.map (Bound.Function.template false)) := by
    rw [List.map_append, List.mem_append]
    refine hc.imp (fun hc => ?_) (memory.held c)
    rw [← Value.closuresOf_map, Value.mapItems_eq]
    exact hc
  have hanswer (id : BuiltinId) (arguments : List Val) (memory : Memory holds) :
      ∃ answer : Except String Val × Memory holds,
        machine.respond id (arguments.map lower) memory.memory = (answer.1.map lower, answer.2.memory) ∧
        (∀ v, answer.1 = .ok v → ∀ c ∈ v.closures, c ∈ Value.closuresOf arguments ++ memory.functions) ∧
        answer.2.functions = Value.closuresOf arguments ++ memory.functions := by
    let after : Memory holds := ⟨(machine.respond id (arguments.map lower) memory.memory).2,
      Value.closuresOf arguments ++ memory.functions,
      fun c hc => hgiven arguments memory c (hhost.memory _ _ _ c hc)⟩
    cases hresult : (machine.respond id (arguments.map lower) memory.memory).1 with
    | error message => exact ⟨(.error message, after), Prod.ext hresult rfl, (fun _ h => by cases h), rfl⟩
    | ok v =>
      obtain ⟨w, hw, hheld⟩ := Value.exists_map (Bound.Function.template false) v fun c hc =>
        hgiven arguments memory c (hhost.answer _ _ _ v hresult c hc)
      refine ⟨(.ok w, after), Prod.ext (hresult.trans (congrArg Except.ok hw.symm)) rfl, fun u hu => ?_, rfl⟩
      cases hu
      exact hheld
  let host : Host (Memory holds) := ⟨fun id arguments memory => (hanswer id arguments memory).choose⟩
  have hspec (id : BuiltinId) (arguments : List Val) (memory : Memory holds) :=
    (hanswer id arguments memory).choose_spec
  refine ⟨host, fun id arguments memory => (hspec id arguments memory).1, fun id arguments memory v hv c hc => ?_,
    fun id arguments memory c hc => ?_⟩
  · exact List.mem_append.1 ((hspec id arguments memory).2.1 v hv c hc)
  · rw [(hspec id arguments memory).2.2] at hc
    exact List.mem_append.1 hc

theorem exists_mirror (hhost : machine.Conserves holds) :
    ∃ host : Host (Memory holds), Mirrors host machine Memory.memory := by
  obtain ⟨host, hmirrors, _⟩ := exists_conserving_mirror hhost
  exact ⟨host, hmirrors⟩

end Direct

end TypedScript
