/-
A machine that is used again and again. Its host registers modules and has the bodies of others run (`Request`).
Whatever it was asked for before, and whether that gave a value or stopped somewhere deep in calls, no call is open
afterwards, and the modules are those that were registered. The frames that were made meanwhile stay, but nothing leads
to them unless something was assigned in a frame that was there before.

- `Machine.serveAll_later`: a machine that served requests is one that served the registrations alone, later on.
- `Machine.Reusable`: what may be relied on when the next body is run.
- `reusable_after_faults`: every machine is reusable, and forgets the bodies that assigned nothing in earlier frames.
- `faults_keep_assignments`: what was assigned there outlasts the fault of the body that assigned it.
-/
import Mathlib
import TypedScript.Proofs.CompilerCorrectness
import TypedScript.Proofs.Machine.Activations
import TypedScript.Proofs.Machine.Made

namespace TypedScript

/-- what a machine can be asked for between two runs -/
inductive Request
  | register (module : String) (exports : Exports)
  | registerNative (native : NativeModule)
  | evaluate (template : Template) (fuel : Nat)

/-- the request registers a module -/
def Request.registers : Request → Bool
  | .evaluate _ _ => false
  | _ => true

/-- the functions among exports that are registered were made on the machine -/
def Request.Made {σ : Type} (m : Machine σ) : Request → Prop
  | .register _ exports => ∀ name v, exports.find? name = some v → ∀ c ∈ v.closures, m.store.Made c
  | _ => True

/-- To the host it makes no difference where frames are and which identities functions have, apart from those that were
made in a store, nor which of two things it remembers; `like` says what corresponds to what it remembers. -/
def Host.Indifferent {σ : Type} (host : Host σ) (like : Renaming → σ → σ → Prop) (s : Store) (memory memory' : σ) :
    Prop :=
  ∀ ρ : Renaming, ρ.Fixes s → host.Blind ρ (like ρ) ∧ like ρ memory memory'

namespace Machine

variable {σ : Type} {holds : σ → List Closure} {host : Host σ} {like : Renaming → σ → σ → Prop}
  {m m' registered : Machine σ} {limit : Nat}

/-- the machine after a request -/
def serve (host : Host σ) (m : Machine σ) : Request → Machine σ
  | .register module exports => m.register module exports
  | .registerNative native => m.registerNative native
  | .evaluate t fuel => Run.last (t.evaluate host fuel m)

/-- the machine after one request after the other -/
def serveAll (host : Host σ) (requests : List Request) (m : Machine σ) : Machine σ := requests.foldl (serve host) m

/-- at each request the functions that are registered were made on the machine -/
def Registers (host : Host σ) : List Request → Machine σ → Prop
  | [], _ => True
  | request :: requests, m => request.Made m ∧ Registers host requests (serve host m request)

/-! ## Registrations -/

/-- registering goes on as before -/
theorem Later.register (h : Later m m') (module : String) (exports : Exports) :
    Later (m.register module exports) (m'.register module exports) := by
  refine ⟨h.limit, h.depth, ?_, h.frames, h.identities⟩
  change m'.modules.insert module exports = m.modules.insert module exports
  rw [h.modules]

/-- a machine that has served requests is one that has served the registrations among them, later on -/
theorem serveAll_later (host : Host σ) (requests : List Request) (h : Later m m') :
    Later (serveAll host (requests.filter Request.registers) m) (serveAll host requests m') := by
  induction requests generalizing m m' with
  | nil => exact h
  | cons request requests ih =>
    cases request with
    | register module exports => exact ih (h.register module exports)
    | registerNative native => exact ih (h.register native.name _)
    | evaluate t fuel => exact ih (h.trans (Run.steady_evaluate host fuel t m'))

/-- registering changes nothing but the modules, and these the same way whatever the host remembers -/
theorem serveAll_registers (host : Host σ) (requests : List Request) (m : Machine σ) :
    ∃ modules, ∀ memory,
      serveAll host (requests.filter Request.registers) { m with memory } = { m with modules, memory } := by
  induction requests generalizing m with
  | nil => exact ⟨m.modules, fun _ => rfl⟩
  | cons request requests ih =>
    cases request with
    | register module exports => exact ih (m.register module exports)
    | registerNative native => exact ih (m.registerNative native)
    | evaluate t fuel => exact ih m

/-! ## Machines that can be used again -/

/-- bodies are run alike on two machines, up to places and identities that leave the functions made in a store as they
are -/
def Serves (host : Host σ) (like : Renaming → σ → σ → Prop) (s : Store) (m m' : Machine σ) : Prop :=
  ∃ ρ : Renaming, ρ.Fixes s ∧ ∀ (t : Template) (fuel : Nat),
    Run.EndsAlike ρ (like ρ) (Evaluation.rename ρ) (t.evaluate host fuel m) (t.evaluate host fuel m')

theorem Beneath.serves (h : m.Beneath m') (hhost : host.Indifferent like m.store m.memory m'.memory) :
    Serves host like m.store m m' := by
  have hfixes := Renaming.fixes_beyond m.store m'.store
  obtain ⟨hblind, hmemory⟩ := hhost _ hfixes
  exact ⟨_, hfixes, fun t fuel => Run.twin_evaluate hblind fuel t m m' (h.alike hmemory)⟩

/-- what may be relied on when the next body is run -/
structure Reusable (host : Host σ) (limit : Nat) (registered m : Machine σ) : Prop where
  /-- the machine is that of the registrations alone, but for the frames and for what the host remembers -/
  same : m = { registered with store := m.store, memory := m.memory }
  bound : m.limit = limit
  /-- no call is open, -/
  idle : m.depth = 0
  /-- and it stays so when a body is run, whether that gives a value or not -/
  again : ∀ (t : Template) (fuel : Nat), m.Later (Run.last (t.evaluate host fuel m))
  /-- at every moment of a run the count is the number of calls that are open, and no more than the limit -/
  counts : ∀ (t : Template) (n : Nat) (q : Moment σ), Meets host (.started t m) n q →
    q.machine.depth = n ∧ n ≤ limit ∧ q.machine.modules = m.modules
  /-- the call of a function is refused just where as many are open as the limit allows -/
  calls : ∀ (t : Template) (n : Nat) (q : Moment σ) (c : Closure) (count : Nat) (stack : Operands),
    Meets host (.started t m) n q → q.stack = .closure c :: stack →
      Run.execute host q.frame q.stack (.dispatch count) q.machine =
        if n = limit then .error (.fault (.callDepthExceeded limit)) q.machine
        else
          match stack.popN count with
          | .ok (arguments, rest) => .ok (.enter c arguments rest) q.machine
          | .error fault => .error (.fault fault) q.machine
  /-- the call of a builtin asks the host, however many calls are open, and leaves their number as it is -/
  asks : ∀ (q : Moment σ) (b : Builtin) (count : Nat) (stack : Operands), q.stack = .builtin b :: stack →
    Run.execute host q.frame q.stack (.dispatch count) q.machine =
      match stack.popN count with
      | .error fault => .error (.fault fault) q.machine
      | .ok (arguments, rest) =>
        match host.respond b.id arguments q.machine.memory with
        | (.ok value, memory) => .ok (.next (value :: rest)) { q.machine with memory }
        | (.error message, memory) => .error (.fault (.host b.name message)) { q.machine with memory }
  /-- the next body is run as on the machine of the registrations that has only some of the frames, the first ones as
  they are now, if neither these nor the exports lead to any other -/
  part : ∀ (like : Renaming → σ → σ → Prop) (store : Store) (memory : σ), Closed { registered with store, memory } →
    store.Extends m.store → host.Indifferent like store memory m.memory →
    Serves host like store { registered with store, memory } m

/-- a machine on which no call is open can be used for the next body -/
theorem Later.reusable (host : Host σ) (h : registered.Later m) (hlimit : registered.limit = limit)
    (hidle : registered.depth = 0) : Reusable host limit registered m := by
  have hm : m.limit = limit := h.limit.trans hlimit
  have hdepth : m.depth = 0 := h.depth.trans hidle
  have hcounts {t : Template} {n : Nat} {q : Moment σ} (hmet : Meets host (.started t m) n q) :
      q.machine.limit = limit ∧ q.machine.depth = n ∧ n ≤ limit ∧ q.machine.modules = m.modules := by
    have hcount := hmet.counts (by change m.depth ≤ m.limit; rw [hdepth]; exact Nat.zero_le _)
    have hn : q.machine.depth = n := hcount.depth.trans (by change m.depth + n = n; rw [hdepth, Nat.zero_add])
    refine ⟨hcount.limit.trans hm, hn, ?_, hmet.modules⟩
    rw [← hn, ← hm]
    exact hcount.within
  refine ⟨?_, hm, hdepth, fun t fuel => Run.steady_evaluate host fuel t m, fun t n q hmet => (hcounts hmet).2,
    fun t n q c count stack hmet hstack => ?_, fun q b count stack hstack => ?_,
    fun like store memory hclosed hstore hhost => ?_⟩
  · obtain ⟨limit, depth, modules, store, memory⟩ := m
    obtain ⟨rfl, rfl, rfl, _, _⟩ := h
    rfl
  · obtain ⟨hqlimit, hqdepth, hn, _⟩ := hcounts hmet
    have hcall := Run.execute_closure host q.frame c count stack q.machine
    rw [hqlimit, hqdepth] at hcall
    rw [hstack]
    by_cases hfull : n = limit
    · rw [if_pos hfull]
      exact hcall.trans (if_pos (Nat.le_of_eq hfull.symm))
    · rw [if_neg hfull]
      exact hcall.trans (if_neg fun hle => hfull (Nat.le_antisymm hn hle))
  · rw [hstack]
    exact Run.execute_builtin host q.frame b count stack q.machine
  · have hbeneath : Beneath { registered with store, memory } m := ⟨h.limit, h.depth, h.modules, hclosed, hstore⟩
    exact hbeneath.serves hhost

/-! ## Bodies that are forgotten -/

/-- what a machine is asked for is forgotten but for the registrations, if it changed no frame that was there: the next
body is run as on the machine that was asked for the registrations alone -/
def Forgets (host : Host σ) (like : Renaming → σ → σ → Prop) (requests : List Request) (m : Machine σ) : Prop :=
  ∀ memory, (∀ i < m.store.frames.size, (serveAll host requests m).store.get? i = m.store.get? i) →
    host.Indifferent like m.store memory (serveAll host requests m).memory →
    Serves host like m.store { serveAll host (requests.filter Request.registers) m with memory }
      (serveAll host requests m)

/-- all functions that are around were made on the machine, if those were that were registered -/
theorem Whole.serveAll (h : m.Whole holds) (hhost : host.Passes holds) {requests : List Request}
    (hrequests : Registers host requests m) : (serveAll host requests m).Whole holds := by
  induction requests generalizing m with
  | nil => exact h
  | cons request requests ih =>
    obtain ⟨hmade, hrest⟩ := hrequests
    refine ih ?_ hrest
    cases request with
    | register module exports => exact h.register hmade
    | registerNative native => exact h.registerNative native
    | evaluate t fuel => exact h.evaluate hhost fuel t

/-- from a machine whose functions were all made before, nothing leads to the frames that were made meanwhile -/
theorem Closed.forgets {requests : List Request} (h : (serveAll host (requests.filter Request.registers) m).Closed) :
    m.Forgets host like requests := by
  intro memory hframes hhost
  obtain ⟨modules, hregistered⟩ := serveAll_registers host requests m
  have hlater := serveAll_later host requests (.refl m)
  rw [show serveAll host (requests.filter Request.registers) m = { m with modules } from hregistered m.memory]
    at h hlater ⊢
  have hbeneath : Beneath { m with modules, memory } (serveAll host requests m) :=
    ⟨hlater.limit, hlater.depth, hlater.modules, ⟨h.exports, h.store⟩, hlater.frames, hlater.identities, hframes⟩
  exact hbeneath.serves hhost

end Machine

/-- Whatever a machine is asked for, and wherever that faults, the machine can be used as before: it is that of the
registrations, over the frames as they are now. And what it is asked for later is forgotten, if it assigned nothing in
the frames that were there, where the modules that are registered then have no functions but those made before. -/
theorem reusable_after_faults {σ : Type} (host : Host σ) (limit : Nat) (memory : σ) (requests : List Request) :
    Machine.Reusable host limit (Machine.serveAll host (requests.filter Request.registers) (.new host limit memory))
        (Machine.serveAll host requests (.new host limit memory)) ∧
      ∀ (holds : σ → List Closure) (like : Renaming → σ → σ → Prop) (later : List Request), host.Owns holds memory →
        Machine.Registers host (requests ++ later.filter Request.registers) (.new host limit memory) →
        (Machine.serveAll host requests (.new host limit memory)).Forgets host like later := by
  refine ⟨?_, fun holds like later hhost hmade => ?_⟩
  · obtain ⟨modules, hregistered⟩ := Machine.serveAll_registers host requests (.new host limit memory)
    have hlater := Machine.serveAll_later host requests (.refl (.new host limit memory))
    rw [show Machine.serveAll host (requests.filter Request.registers) (.new host limit memory) =
      ⟨limit, 0, modules, host.store, memory⟩ from hregistered memory] at hlater ⊢
    exact hlater.reusable host rfl rfl
  · have hwhole := (Machine.Whole.new hhost limit).serveAll hhost.passes hmade
    rw [Machine.serveAll, List.foldl_append] at hwhole
    exact hwhole.closed.forgets

/-! ## A counter -/

/-- the value that a body gives, or why it gives none -/
def Run.outcome {σ : Type} : EStateM.Result Stop (Machine σ) Evaluation → Except Stop Value
  | .ok evaluation _ => .ok evaluation.result
  | .error stop _ => .error stop

theorem Run.EndsAlike.outcome {σ : Type} {ρ : Renaming} {like : σ → σ → Prop}
    {r r' : EStateM.Result Stop (Machine σ) Evaluation} (h : EndsAlike ρ like (Evaluation.rename ρ) r r') :
    Run.outcome r' = (Run.outcome r).map (Value.rename ρ) := by
  cases r with
  | ok evaluation m =>
    cases r' with
    | ok evaluation' m' =>
      obtain ⟨rfl, _⟩ := h
      rfl
    | error stop' m' => exact h.elim
  | error stop m =>
    cases r' with
    | ok evaluation' m' => exact h.elim
    | error stop' m' =>
      obtain ⟨rfl, _⟩ := h
      rfl

namespace Counter

/-- a machine that allows two calls -/
def machine : Machine (List String) := .new printing 2 []

/-- a function that counts its calls in a variable around it -/
def tick : Template :=
  ⟨1, [], [.load ⟨0, "count"⟩, .push (.int 1), .binary .add, .store ⟨0, "count"⟩, .load ⟨0, "count"⟩, .giveBack]⟩

/-- a module with the function is run and registered -/
def counting : List Request :=
  [.evaluate ⟨0, [], [.reserve ⟨0, "count"⟩, .push (.int 0), .store ⟨0, "count"⟩, .push (.function tick), .halt]⟩ 9,
  .register "counter" (.ofList [("tick", .closure ⟨0, tick, 0⟩)])]

/-- the function is called once -/
def once : Template := ⟨2, [], [.loadImport "counter" "tick", .dispatch 0, .giveBack]⟩

/-- the function is called, and its value divided by zero -/
def spoilt : Template :=
  ⟨3, [], [.loadImport "counter" "tick", .dispatch 0, .push (.int 0), .binary .divide, .giveBack]⟩

/-- a function calls itself again and again -/
def runaway : Template :=
  ⟨4, [], [.push (.function ⟨5, [], [.loadSelf, .dispatch 0, .giveBack]⟩), .dispatch 0, .giveBack]⟩

end Counter

open Counter

/-- a body that runs away leaves no trace: the function counts as if it had not been run -/
theorem reusable_after_faults_runaway :
    Run.outcome (runaway.evaluate printing 20 (machine.serveAll printing counting)) =
        .error (.fault (.callDepthExceeded 2)) ∧
      Run.outcome (once.evaluate printing 20 (machine.serveAll printing (counting ++ [.evaluate runaway 20]))) =
        .ok (.int 1) := by
  let counted := machine.serveAll printing counting
  have hregisters : Machine.Registers printing (counting ++ []) machine := by
    refine ⟨trivial, fun name v hv c hc => ?_, trivial⟩
    obtain ⟨_, rfl⟩ := Prod.mk.inj (List.mem_singleton.1 (Table.mem_of_find?_ofList hv))
    obtain rfl := List.mem_singleton.1 hc
    exact ⟨by cbv, by cbv⟩
  have hframes (i : Nat) (hi : i < counted.store.frames.size) :
      (counted.serveAll printing [.evaluate runaway 20]).store.get? i = counted.store.get? i := by
    have hsize : counted.store.frames.size = 1 := by cbv
    rw [hsize] at hi
    obtain rfl := Nat.lt_one_iff.1 hi
    cbv
  have hblind (ρ : Renaming) : printing.Blind ρ Eq :=
    StandardFunction.host_blind (fun text _ _ h => congrArg (· ++ [text]) h) fun _ _ _ _ h => ⟨rfl, h⟩
  obtain ⟨_, hforgets⟩ := reusable_after_faults printing 2 [] counting
  obtain ⟨ρ, _, hserves⟩ := hforgets (fun _ => []) (fun _ => Eq) [.evaluate runaway 20] (printing_conserves.owns rfl)
    hregisters [] hframes fun ρ _ => ⟨hblind ρ, by cbv⟩
  refine ⟨by cbv, (hserves once 20).outcome.trans ?_⟩
  cbv

/-- what a body assigned before it faulted stays assigned: the function counts on from there -/
theorem faults_keep_assignments :
    Run.outcome (spoilt.evaluate printing 20 (machine.serveAll printing counting)) = .error (.fault .divisionByZero) ∧
      Run.outcome (once.evaluate printing 20 (machine.serveAll printing counting)) = .ok (.int 1) ∧
      Run.outcome (once.evaluate printing 20 (machine.serveAll printing (counting ++ [.evaluate spoilt 20]))) =
        .ok (.int 2) ∧
      (machine.serveAll printing (counting ++ [.evaluate spoilt 20])).memory = machine.memory :=
  ⟨by cbv, by cbv, by cbv, by cbv⟩

end TypedScript
