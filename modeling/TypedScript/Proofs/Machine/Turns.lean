/-
Turns. The modules of a program are run one after the other, each in the machine that the one before it left, and the
first that fails ends the run. A module that does not fail has its exports registered under its key, and the turns of
other modules leave them as they are.

- `Toolchain.runModules_turns`: running modules comes to what the last of their turns comes to.
- `Turn.Registers`: what a module exports when its turn is over, and which value its turn has.
- `Toolchain.pairwise_turns`: what a module exports is still there when a later module has its turn.
-/
import TypedScript.Proofs.Machine.Bodies

namespace TypedScript

/-- a module's turn: the machine before it, what came of running the module, and the machine behind it -/
structure Turn (σ : Type) where
  linked : LinkedModule
  template : Option Template
  before : Machine σ
  outcome : Except ToolchainError (Option ModuleValue)
  after : Machine σ

/-- the turns of modules, up to the first that fails -/
def Toolchain.turns {σ : Type} (host : Host σ) (fuel : Nat) (p : Program) :
    List (LinkedModule × Option Template) → Machine σ → List (Turn σ)
  | [], _ => []
  | (linked, template) :: ms, m =>
    match runModule host fuel p linked template m with
    | (.ok value, after) => ⟨linked, template, m, .ok value, after⟩ :: turns host fuel p ms after
    | (.error error, after) => [⟨linked, template, m, .error error, after⟩]

variable {σ : Type} {host : Host σ} {fuel : Nat} {p : Program} {ms : List (LinkedModule × Option Template)}
  {m after : Machine σ} {turn : Turn σ} {value : Option ModuleValue}

namespace Turn

/-- the key of the module whose turn it is -/
def key (turn : Turn σ) : String := turn.linked.module.key

/-- the names that are recorded as exports of the module -/
def names (p : Program) (turn : Turn σ) : List String := (p.arena.exports turn.linked.scopes.global).map Prod.fst

/-- the value of an export: a native module has a builtin of that name, and the variable of that name of a source module
has the value when the body of the module has ended -/
def Gives (host : Host σ) (fuel : Nat) (p : Program) (turn : Turn σ) (name : String) (v : Value) : Prop :=
  match turn.linked.module.content with
  | .native native => ∃ b ∈ native.builtins, b.name = name ∧ v = .builtin b
  | .source _ => ∃ t result left last s w, turn.template = some t ∧
      (Moment.started t turn.before).run host fuel = .ok (result, left) last ∧
      p.arena.get? turn.linked.scopes.global = some s ∧ s.find? name = some w ∧
      last.store.load (Moment.started t turn.before).frame w.cell = .ok v

/-- a turn that did not fail: exports are registered under the key of the module, which are its recorded ones with the
values that it gives, and nothing else is changed among the exports of modules; a source module has a value, which is
that of its body, together with the exports -/
structure Registers (host : Host σ) (fuel : Nat) (p : Program) (turn : Turn σ) (value : Option ModuleValue)
    (exports : Exports) : Prop where
  registered : turn.after.modules = turn.before.modules.insert turn.key exports
  found : ∀ name ∈ turn.names p, ∃ v, exports.find? name = some v
  given : ∀ name v, exports.find? name = some v ↔ name ∈ turn.names p ∧ turn.Gives host fuel p name v
  value : match value with
    | none => turn.linked.module.isNative = true
    | some value => value.exports = exports ∧ ∃ t left last, turn.template = some t ∧
        (Moment.started t turn.before).run host fuel = .ok (value.result, left) last

end Turn

namespace Toolchain

/-! ## One module -/

/-- what is collected is the value of each variable whose name is exported -/
theorem find?_collect {s : Scope} {frame : FrameId} {exports : List (String × Ty)} {collected found : Exports}
    (h : collect (some s) frame exports collected m = .ok found) (name : String) :
    (name ∉ exports.map Prod.fst → found.find? name = collected.find? name) ∧
      (name ∈ exports.map Prod.fst → ∃ w v, s.find? name = some w ∧ m.store.load frame w.cell = .ok v ∧
        found.find? name = some v) := by
  induction exports generalizing collected with
  | nil =>
    cases h
    exact ⟨fun _ => rfl, fun hname => nomatch hname⟩
  | cons e exports ih =>
    unfold collect at h
    rw [Option.bind_some, Scope.variableIndex?_bind] at h
    split at h
    · cases h
    · next w hfind =>
      split at h
      · cases h
      · next v hload =>
        obtain ⟨hother, hsame⟩ := ih h
        refine ⟨fun hname => ?_, fun hname => ?_⟩
        · obtain ⟨hne, hrest⟩ := not_or.1 fun h => hname (List.mem_cons.2 h)
          rw [hother hrest, Table.find?_insert, if_neg (Ne.symm hne)]
        · by_cases hrest : name ∈ exports.map Prod.fst
          · exact hsame hrest
          · obtain rfl : name = e.1 := (List.mem_cons.1 hname).resolve_right hrest
            refine ⟨w, v, hfind, hload, ?_⟩
            rw [hother hrest, Table.find?_insert, if_pos rfl]

theorem runModule_native {linked : LinkedModule} {native : NativeModule} (h : linked.module.content = .native native)
    (template : Option Template) (m : Machine σ) :
    runModule host fuel p linked template m = (.ok none, m.registerNative native) := by
  unfold runModule
  rw [h]

theorem runModule_source {linked : LinkedModule} {body : Block} {t : Template} {v : Value} {left : Operands}
    {last : Machine σ} {exports : Exports} (h : linked.module.content = .source body)
    (hrun : (Moment.started t m).run host fuel = .ok (v, left) last)
    (hcollect : collect (p.arena.get? linked.scopes.global) m.store.newRoot.1 (p.arena.exports linked.scopes.global)
      .empty last = .ok exports) :
    runModule host fuel p linked (some t) m = (.ok (some ⟨v, exports⟩), last.register linked.module.key exports) := by
  unfold runModule
  rw [h]
  dsimp only
  rw [Moment.evaluate_eq, hrun]
  dsimp only
  rw [hcollect]

/-- running a body leaves the exports of modules as they are -/
theorem modules_of_run {start : Moment σ} {v : Value} {left : Operands} {last : Machine σ}
    (h : start.run host fuel = .ok (v, left) last) : last.modules = start.machine.modules := by
  obtain ⟨final, hmet, _, hleaves⟩ := Moment.exists_leaving h
  obtain rfl := hleaves.machine_eq
  exact hmet.modules

end Toolchain

namespace Turn

open Toolchain (runModule)

/-- a native module registers its builtins, each under its name -/
theorem registers_native {native : NativeModule} (hcontent : turn.linked.module.content = .native native)
    (hkey : turn.key = native.name) (hexports : p.arena.exports turn.linked.scopes.global = native.exports)
    (hnodup : (turn.names p).Nodup)
    (h : runModule host fuel p turn.linked turn.template turn.before = (.ok value, turn.after)) :
    ∃ exports, turn.Registers host fuel p value exports := by
  rw [Toolchain.runModule_native hcontent] at h
  obtain ⟨hvalue, hafter⟩ := Prod.mk.inj h
  obtain rfl := Except.ok.inj hvalue
  have hnames : turn.names p = native.builtins.map Builtin.name := by
    unfold names
    rw [hexports, NativeModule.exports, List.map_map]
    rfl
  have hentries : (native.builtins.map fun b => (b.name, Value.builtin (φ := Template) b)).map Prod.fst =
      turn.names p := by
    rw [hnames, List.map_map]
    rfl
  refine ⟨.ofList (native.builtins.map fun b => (b.name, .builtin b)), ?_, fun name hname => ?_, fun name v => ?_, ?_⟩
  · rw [← hafter, hkey]
    rfl
  · exact Table.exists_find?_ofList (hentries ▸ hname)
  · unfold Gives
    rw [hcontent]
    refine ⟨fun hv => ?_, ?_⟩
    · obtain ⟨b, hb, heq⟩ := List.mem_map.1 (Table.mem_of_find?_ofList hv)
      cases heq
      exact ⟨hnames ▸ List.mem_map_of_mem hb, b, hb, rfl, rfl⟩
    · rintro ⟨hname, b, hb, rfl, rfl⟩
      obtain ⟨v, hv⟩ := Table.exists_find?_ofList (hentries ▸ hname)
      obtain ⟨b', hb', heq⟩ := List.mem_map.1 (Table.mem_of_find?_ofList hv)
      -- no other builtin has the name
      obtain rfl : b' = b := List.inj_on_of_nodup_map (hnames ▸ hnodup) hb' hb (congrArg Prod.fst heq)
      obtain ⟨_, rfl⟩ := Prod.mk.inj heq
      exact hv
  · unfold Module.isNative
    rw [hcontent]

/-- a source module registers the values that its exported variables have when its body has ended -/
theorem registers_source {body : Block} (hcontent : turn.linked.module.content = .source body)
    (hglobal : p.arena.isGlobal turn.linked.scopes.global = true)
    (h : runModule host fuel p turn.linked turn.template turn.before = (.ok value, turn.after)) :
    ∃ exports, turn.Registers host fuel p value exports := by
  obtain ⟨native, hnative, _⟩ | ⟨_, t, v, left, last, exports, _, ht, hrun, hcollect, hafter⟩ :=
    Toolchain.runModule_ok h
  · rw [hcontent] at hnative
    cases hnative
  rw [ht, Toolchain.runModule_source hcontent hrun hcollect] at h
  obtain rfl := Except.ok.inj (Prod.mk.inj h).1
  obtain ⟨s, hs, _⟩ := Arena.isGlobal_iff.1 hglobal
  rw [hs] at hcollect
  have hnot {name : String} (hname : name ∉ turn.names p) : exports.find? name = none :=
    (Toolchain.find?_collect hcollect name).1 hname
  have hcollected {name : String} (hname : name ∈ turn.names p) := (Toolchain.find?_collect hcollect name).2 hname
  refine ⟨exports, ?_, fun name hname => ?_, fun name v => ?_, rfl, t, left, last, ht, hrun⟩
  · rw [hafter]
    change last.modules.insert _ _ = _
    rw [Toolchain.modules_of_run hrun]
    rfl
  · obtain ⟨_, v, _, _, hv⟩ := hcollected hname
    exact ⟨v, hv⟩
  · unfold Gives
    rw [hcontent]
    refine ⟨fun hv => ?_, ?_⟩
    · by_cases hname : name ∈ turn.names p
      · obtain ⟨w, v', hfind, hload, hfound⟩ := hcollected hname
        obtain rfl : v' = v := Option.some.inj (hfound.symm.trans hv)
        exact ⟨hname, t, _, left, last, s, w, ht, hrun, hs, hfind, hload⟩
      · rw [hnot hname] at hv
        cases hv
    · rintro ⟨hname, t', result, left', last', s', w, ht', hrun', hs', hfind, hload⟩
      obtain ⟨w', v', hfind', hload', hfound⟩ := hcollected hname
      obtain rfl := Option.some.inj (ht.symm.trans ht')
      obtain ⟨_, rfl⟩ := EStateM.Result.ok.inj (hrun.symm.trans hrun')
      obtain rfl := Option.some.inj (hs.symm.trans hs')
      obtain rfl := Option.some.inj (hfind.symm.trans hfind')
      rw [hfound, Except.ok.inj (hload'.symm.trans hload)]

end Turn

/-- a module whose exports are recorded under names of their own in a global scope, those of a native module as it has
them -/
structure Program.Exporting (p : Program) (linked : LinkedModule) : Prop where
  global : p.arena.isGlobal linked.scopes.global = true
  distinct : ((p.arena.exports linked.scopes.global).map Prod.fst).Nodup
  native : ∀ native, linked.module.content = .native native →
    linked.module.key = native.name ∧ p.arena.exports linked.scopes.global = native.exports

/-- a module that does not fail registers its exports -/
theorem Turn.exists_registers (hexporting : p.Exporting turn.linked)
    (h : Toolchain.runModule host fuel p turn.linked turn.template turn.before = (.ok value, turn.after)) :
    ∃ exports, turn.Registers host fuel p value exports := by
  cases hcontent : turn.linked.module.content with
  | native native =>
    obtain ⟨hkey, hexports⟩ := hexporting.native native hcontent
    exact Turn.registers_native hcontent hkey hexports hexporting.distinct h
  | source body => exact Turn.registers_source hcontent hexporting.global h

namespace Toolchain

/-! ## One module after the other -/

/-- running modules comes to what the last of their turns comes to: where it fails, to its failure, and otherwise all
modules have had their turns, and the value is that of the last, if it has one -/
theorem runModules_turns (hms : ms ≠ []) (last : Option ModuleValue) (m : Machine σ) :
    ∃ turn, (turns host fuel p ms m).getLast? = some turn ∧ (runModules host fuel p ms last m).2 = turn.after ∧
      match turn.outcome with
      | .error error => (runModules host fuel p ms last m).1 = .error error
      | .ok value => (turns host fuel p ms m).map (fun turn => (turn.linked, turn.template)) = ms ∧
          ∀ w, value = some w → (runModules host fuel p ms last m).1 = .ok (some w) := by
  induction ms generalizing last m with
  | nil => exact absurd rfl hms
  | cons x ms ih =>
    obtain ⟨linked, template⟩ := x
    unfold turns runModules
    cases hrun : runModule host fuel p linked template m with
    | mk outcome after =>
      cases outcome with
      | error error => exact ⟨_, rfl, rfl, rfl⟩
      | ok value =>
        dsimp only
        by_cases hrest : ms = []
        · subst hrest
          refine ⟨_, rfl, rfl, rfl, fun w hw => ?_⟩
          subst hw
          rfl
        · obtain ⟨turn, hlast, hafter, houtcome⟩ := ih hrest (value.or last) after
          refine ⟨turn, ?_, hafter, ?_⟩
          · rw [List.getLast?_cons, hlast]
            rfl
          · split at houtcome
            · exact houtcome
            · next hok =>
              obtain ⟨hall, hvalue⟩ := houtcome
              exact ⟨congrArg ((linked, template) :: ·) hall, hvalue⟩

/-- modules have their turns in their order -/
theorem turns_prefix (ms : List (LinkedModule × Option Template)) (m : Machine σ) :
    (turns host fuel p ms m).map (fun turn => (turn.linked, turn.template)) <+: ms := by
  induction ms generalizing m with
  | nil => exact List.prefix_refl []
  | cons x ms ih =>
    obtain ⟨linked, template⟩ := x
    unfold turns
    split
    · next after _ => exact List.cons_prefix_cons.2 ⟨rfl, ih after⟩
    · exact List.cons_prefix_cons.2 ⟨rfl, List.nil_prefix⟩

/-- a turn is that of running its module -/
theorem runModule_of_mem_turns (h : turn ∈ turns host fuel p ms m) :
    runModule host fuel p turn.linked turn.template turn.before = (turn.outcome, turn.after) := by
  induction ms generalizing m with
  | nil => cases h
  | cons x ms ih =>
    obtain ⟨linked, template⟩ := x
    unfold turns at h
    split at h
    · next hrun =>
      rcases List.mem_cons.1 h with rfl | h
      · exact hrun
      · exact ih h
    · next hrun =>
      obtain rfl := List.mem_singleton.1 h
      exact hrun

/-- every body that is started is that of a turn -/
theorem Starts.exists_turn {start : Moment σ} (h : Starts host fuel p ms m start) :
    ∃ turn ∈ turns host fuel p ms m, ∃ t, turn.template = some t ∧ start = .started t turn.before := by
  induction h with
  | here source =>
    unfold turns
    split
    · exact ⟨_, List.mem_cons_self, _, rfl, rfl⟩
    · exact ⟨_, List.mem_cons_self, _, rfl, rfl⟩
  | later runs _ ih =>
    obtain ⟨turn, hturn, t, ht, hstart⟩ := ih
    unfold turns
    rw [runs]
    exact ⟨turn, List.mem_cons_of_mem _ hturn, t, ht, hstart⟩

/-- other modules leave what is registered under a key as it is -/
theorem modules_of_mem_turns (hms : ∀ x ∈ ms, p.Exporting x.1) {key : String}
    (hkey : key ∉ ms.map fun x => x.1.module.key) (h : turn ∈ turns host fuel p ms m) :
    turn.before.modules.find? key = m.modules.find? key := by
  induction ms generalizing m with
  | nil => cases h
  | cons x ms ih =>
    obtain ⟨linked, template⟩ := x
    obtain ⟨hexporting, hrest⟩ := List.forall_mem_cons.1 hms
    obtain ⟨hne, hkey⟩ := not_or.1 fun h => hkey (List.mem_cons.2 h)
    unfold turns at h
    split at h
    · next value after hrun =>
      rcases List.mem_cons.1 h with rfl | h
      · rfl
      · let own : Turn σ := ⟨linked, template, m, .ok value, after⟩
        obtain ⟨exports, hregisters⟩ : ∃ exports, own.Registers host fuel p value exports :=
          Turn.exists_registers hexporting hrun
        have hmodules : after.modules = m.modules.insert linked.module.key exports := hregisters.registered
        rw [ih hrest hkey h, hmodules, Table.find?_insert, if_neg (Ne.symm hne)]
    · obtain rfl := List.mem_singleton.1 h
      rfl

/-- a turn that is followed by others did not fail, and what its module exports is still there in those -/
theorem pairwise_turns (hms : ∀ x ∈ ms, p.Exporting x.1) (hkeys : (ms.map fun x => x.1.module.key).Nodup)
    (m : Machine σ) : (turns host fuel p ms m).Pairwise fun earlier later =>
      (∃ value, earlier.outcome = .ok value) ∧
        later.before.modules.find? earlier.key = earlier.after.modules.find? earlier.key := by
  induction ms generalizing m with
  | nil => exact .nil
  | cons x ms ih =>
    obtain ⟨linked, template⟩ := x
    obtain ⟨_, hrest⟩ := List.forall_mem_cons.1 hms
    obtain ⟨hkey, hkeys⟩ := List.nodup_cons.1 hkeys
    unfold turns
    split
    · next value after _ =>
      exact .cons (fun later hlater => ⟨⟨value, rfl⟩, modules_of_mem_turns hrest hkey hlater⟩) (ih hrest hkeys after)
    · exact List.pairwise_singleton _ _

/-- functions that are around at a turn are made from the templates of that module and those before it: where these have
a property of their places, so have all templates that functions are made from -/
theorem only_of_turns {P : Nat → Template → Prop} {holds : σ → List Closure} {limit : Nat}
    (hhost : host.Conserves holds)
    (hnested : ∀ k t, P k t → ∀ u ∈ t.nested, P k u) (hlater : ∀ k t, P k t → P (k + 1) t) {n : Nat}
    (hms : ∀ k linked t, ms[k]? = some (linked, some t) → P (n + k) t) (hm : Run.Only (P n) holds limit 0 m) {i : Nat}
    (h : (turns host fuel p ms m)[i]? = some turn) : Run.Only (P (n + i)) holds limit 0 turn.before := by
  induction ms generalizing n m i with
  | nil => cases h
  | cons x ms ih =>
    obtain ⟨linked, template⟩ := x
    unfold turns at h
    cases i with
    | zero =>
      split at h
      · cases h
        exact hm
      · cases h
        exact hm
    | succ i =>
      split at h
      · next value after hrun =>
        have hafter :=
          runModule_only hhost (hnested n) (fun t ht => hms 0 linked t (congrArg (fun t => some (linked, t)) ht))
          hm hrun
        have hrest := ih (n := n + 1) (fun k linked t hk => by
          rw [Nat.add_right_comm]
          exact hms (k + 1) linked t hk) (hafter.mono (hlater n)) h
        rwa [Nat.add_right_comm] at hrest
      · cases h

end Toolchain

end TypedScript
