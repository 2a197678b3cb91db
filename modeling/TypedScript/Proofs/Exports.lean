/-
Exports and imports across modules. What a module is recorded to export, what the code of its importers fetches and what
is registered under its key when it runs are three lists that are made apart from each other. In a checked program they
line up: a module runs once, when all that it imports is registered, and every name that it imports is found there with
the value that the exporting module left in its variable.

- `Program.nodup_exports`, `Program.Compiled`: what is known of the modules of a checked program.
- `Program.Compiled.exists_export`: what the code of a module fetches is registered when the module has its turn.
- `LinesUp`, `Program.Compiled.linesUp`: how the turns of modules follow each other.
- `Program.Compiled.finds_exports`: no export is missed, in whichever function it is fetched.
- `exports_line_up`: what a checked module exports, and what becomes of it in a run.
-/
import TypedScript.Proofs.Linking.Shape
import TypedScript.Proofs.Machine.Turns
import TypedScript.Proofs.TypeSoundness
import TypedScript.Proofs.Typing.Exported
import TypedScript.Proofs.Typing.Isolation

namespace TypedScript

open Compile (Job)

variable {σ : Type} {holds : σ → List Closure} {host : Host σ} {natives : List NativeModule} {g : Graph} {p : Program}
  {m : LinkedModule} {t : Template} {templates : List (Option Template)} {start : Machine σ} {fuel i : Nat}
  {turn : Turn σ} {q : Moment σ} {value : Option ModuleValue} {key name : String}

/-! ## The modules of a program -/

namespace Program

/-- no module of a program exports a name twice -/
theorem nodup_exports (hlink : link g = .ok p) (hm : m ∈ p.modules) :
    ((p.arena.exports m.scopes.global).map Prod.fst).Nodup := by
  refine linked_keeps (P := fun p => ∀ m ∈ p.modules, ((p.arena.exports m.scopes.global).map Prod.fst).Nodup)
    (fun _ h => nomatch h) (fun p places ts links module hgood hlinks hp m hm => ?_) hlink m hm
  obtain ⟨hextension, _⟩ := extension_add hgood.wellFormed hlinks module
  rw [add_eq] at hextension hm ⊢
  rcases List.mem_append.1 hm with hm | hm
  · obtain ⟨k, hk⟩ := List.getElem?_of_mem hm
    obtain ⟨t, ht⟩ := hgood.exists_tree hk
    rw [hextension.exports (Arena.lt_of_isGlobal (hgood.checked k m t hk ht).global)]
    exact hp m hm
  · obtain rfl := List.mem_singleton.1 hm
    unfold scopesOf
    cases module.content with
    | source body => exact (checkModule_exports p.arena body (p.importsOf links)).2.1
    | native native => exact Arena.nodup_newNative p.arena native.exports

theorem exporting (hbuilt : g.Built natives) (hlink : link g = .ok p) (hclean : p.hasErrors = false)
    (hm : m ∈ p.modules) : p.Exporting m := by
  obtain ⟨_, hgood⟩ := linked_good hlink
  obtain ⟨k, hk⟩ := List.getElem?_of_mem hm
  obtain ⟨t, ht⟩ := hgood.exists_tree hk
  exact ⟨(hgood.checked k m t hk ht).global, nodup_exports hlink hm,
    fun native hcontent => (native_exports hbuilt hlink hclean hm hcontent).2⟩

theorem isNative_of_compileModule (h : p.compileModule m = .ok none) : m.module.isNative = true := by
  unfold compileModule at h
  unfold Module.isNative
  split at h
  · next hcontent => rw [hcontent]
  · next body hcontent =>
    cases hrun : (Compile.template ⟨p, m⟩ m.scopes.global true body).run ⟨.empty, 0⟩ with
    | error fault => rw [hrun] at h; cases h
    | ok result => rw [hrun] at h; cases h

/-- what is known of the modules of a checked program and of their templates -/
structure Compiled (p : Program) (templates : List (Option Template)) : Prop where
  wellFormed : p.arena.WellFormed
  length : p.modules.length ≤ templates.length
  keys : p.order.Nodup
  exporting : ∀ m ∈ p.modules, p.Exporting m
  earlier : ∀ (k : Nat) m path place, p.modules[k]? = some m → m.links.find? path = some place → place < k
  bodies : ∀ m t, (m, some t) ∈ p.modules.zip templates → p.BodyCode m t
  natives : ∀ m, (m, none) ∈ p.modules.zip templates → m.module.isNative = true

theorem compiled (hbuilt : g.Built natives) (hlink : link g = .ok p) (hclean : p.hasErrors = false)
    (hcompile : p.compile = .ok templates) : p.Compiled templates := by
  obtain ⟨_, hgood⟩ := linked_good hlink
  obtain ⟨_, _, hfollows⟩ := linked_follows hlink
  refine ⟨hgood.wellFormed, Nat.le_of_eq (forall₂_of_mapM hcompile).length_eq, linked_keys hbuilt hlink,
    fun m hm => exporting hbuilt hlink hclean hm, fun k m path place hm hfind => ?_,
    fun m t hmem => ?_, fun m hmem => ?_⟩
  · obtain ⟨_, _, _, _, _, hlinks⟩ := hfollows k m hm
    exact (hlinks path place hfind).1
  · exact bodyCode hbuilt hlink hclean (List.of_mem_zip hmem).1 (compileModule_of_mem_zip hcompile hmem)
  · exact isNative_of_compileModule (compileModule_of_mem_zip hcompile hmem)

/-- the root of a program is the module that its graph was built for -/
theorem root_module {rootPath : String} {root : Block} {loader : Loader}
    (hbuild : Graph.build rootPath root loader natives = .ok g) (hbuilt : g.Built natives) (hlink : link g = .ok p) :
    ∃ m, p.root? = some m ∧ m.module = .ofSource rootPath root := by
  obtain ⟨m, node, _, hroot, hnode, hmodule, _⟩ := linked_root hbuilt hlink
  have hfirst := Graph.root_of_build hbuild
  rw [hnode, Option.map_some, Option.some.injEq] at hfirst
  exact ⟨m, hroot, hmodule.trans hfirst⟩

end Program

/-! ## What is registered -/

/-- a turn whose module's exports are registered when another turn comes -/
structure Turn.Precedes (host : Host σ) (fuel : Nat) (p : Program) (dependency : Turn σ) (exports : Exports)
    (turn : Turn σ) : Prop where
  registers : ∃ value, dependency.outcome = .ok value ∧ dependency.Registers host fuel p value exports
  there : turn.before.modules.find? dependency.key = some exports

namespace Program.Compiled

open Toolchain (turns)

/-- modules have their turns in the order of the program, each with its template -/
theorem zip_at_turn (hi : (turns host fuel p (p.modules.zip templates) start)[i]? = some turn) :
    (p.modules.zip templates)[i]? = some (turn.linked, turn.template) := by
  have hpair : ((turns host fuel p (p.modules.zip templates) start).map fun turn => (turn.linked, turn.template))[i]? =
      some (turn.linked, turn.template) := by
    rw [List.getElem?_map, hi]
    rfl
  exact getElem?_of_prefix (Toolchain.turns_prefix _ start) hpair

theorem module_at_turn (hi : (turns host fuel p (p.modules.zip templates) start)[i]? = some turn) :
    p.modules[i]? = some turn.linked := (List.getElem?_zip_eq_some.1 (zip_at_turn hi)).1

variable (h : p.Compiled templates)

include h

theorem exporting_zip : ∀ x ∈ p.modules.zip templates, p.Exporting x.1 :=
  fun x hx => h.exporting x.1 (List.of_mem_zip (a := x.1) (b := x.2) hx).1

theorem fst_zip : (p.modules.zip templates).map Prod.fst = p.modules := List.map_fst_zip h.length

theorem keys_zip : ((p.modules.zip templates).map fun x => x.1.module.key).Nodup := by
  have hkeys := h.keys
  unfold order at hkeys
  rw [← h.fst_zip, List.map_map] at hkeys
  exact hkeys

theorem registers (hturn : turn ∈ turns host fuel p (p.modules.zip templates) start) (hok : turn.outcome = .ok value) :
    ∃ exports, turn.Registers host fuel p value exports := by
  obtain ⟨i, hi⟩ := List.getElem?_of_mem hturn
  have hrun := Toolchain.runModule_of_mem_turns hturn
  rw [hok] at hrun
  exact Turn.exists_registers (h.exporting _ (List.mem_of_getElem? (module_at_turn hi))) hrun

/-- a module that fails does so in its body -/
theorem fails (hturn : turn ∈ turns host fuel p (p.modules.zip templates) start) {error : ToolchainError}
    (herror : turn.outcome = .error error) : ∃ t stop last, turn.template = some t ∧
      (Moment.started t turn.before).run host fuel = .error stop last ∧ error = .ofStop stop := by
  obtain ⟨i, hi⟩ := List.getElem?_of_mem hturn
  have hmem := List.mem_of_getElem? (zip_at_turn hi)
  have hrun := Toolchain.runModule_of_mem_turns hturn
  rw [herror] at hrun
  obtain ⟨_, hnone, hsource⟩ | ⟨body, t, _, ht, hwhy⟩ := Toolchain.runModule_error hrun
  · rw [hnone] at hmem
    rw [h.natives _ hmem] at hsource
    cases hsource
  · obtain ⟨stop, last, hstop⟩ | ⟨v, left, last, hrun, hcollect⟩ := hwhy
    · exact ⟨t, stop, last, ht, hstop⟩
    · rw [ht] at hmem
      obtain ⟨exports, hexports⟩ := (h.bodies _ t hmem).collects h.wellFormed.ordered hrun
      rw [hcollect] at hexports
      cases hexports

/-- the exports of all earlier modules are registered when a module has its turn -/
theorem precedes {j : Nat} (hi : (turns host fuel p (p.modules.zip templates) start)[i]? = some turn) (hj : j < i) :
    ∃ dependency exports, (turns host fuel p (p.modules.zip templates) start)[j]? = some dependency ∧
      dependency.Precedes host fuel p exports turn := by
  obtain ⟨hlt, rfl⟩ := List.getElem?_eq_some_iff.1 hi
  have hpairwise : (turns host fuel p (p.modules.zip templates) start).Pairwise _ :=
    Toolchain.pairwise_turns h.exporting_zip h.keys_zip start
  obtain ⟨⟨value, hok⟩, hstays⟩ := List.pairwise_iff_getElem.1 hpairwise j i (Nat.lt_trans hj hlt) hlt hj
  obtain ⟨exports, hregisters⟩ := h.registers (List.getElem_mem _) hok
  refine ⟨_, exports, List.getElem?_eq_getElem (Nat.lt_trans hj hlt), ⟨value, hok, hregisters⟩, ?_⟩
  rw [hstays, hregisters.registered, Table.find?_insert, if_pos rfl]

/-- what the code of a module or of an earlier one fetches is registered when the module has its turn -/
theorem exists_export {k : Nat} (hm : p.modules[k]? = some m) (hk : k ≤ i)
    (hi : (turns host fuel p (p.modules.zip templates) start)[i]? = some turn)
    (hsupplies : Job.Supplies ⟨p, m⟩ key name) :
    ∃ j dependency exports v, j < k ∧ (turns host fuel p (p.modules.zip templates) start)[j]? = some dependency ∧
      dependency.key = key ∧ dependency.Precedes host fuel p exports turn ∧ dependency.Gives host fuel p name v ∧
      turn.before.export? key name = some v := by
  obtain ⟨path, place, linked, hfind, hplace, rfl, hname⟩ := hsupplies
  have hplacelt := h.earlier k m path place hm hfind
  obtain ⟨dependency, exports, hj, hprecedes⟩ := h.precedes hi (Nat.lt_of_lt_of_le hplacelt hk)
  obtain rfl : linked = dependency.linked := Option.some.inj (hplace.symm.trans (module_at_turn hj))
  obtain ⟨value, _, hregisters⟩ := hprecedes.registers
  obtain ⟨v, hv⟩ := hregisters.found name hname
  refine ⟨place, dependency, exports, v, hplacelt, hj, rfl, hprecedes, ((hregisters.given name v).1 hv).2, ?_⟩
  unfold Machine.export?
  rw [show turn.before.modules.find? dependency.linked.module.key = some exports from hprecedes.there]
  exact hv

/-- a source module has code of its body -/
theorem exists_code (hi : (turns host fuel p (p.modules.zip templates) start)[i]? = some turn) {body : Block}
    (hcontent : turn.linked.module.content = .source body) :
    ∃ t, turn.template = some t ∧ p.BodyCode turn.linked t := by
  have hmem := List.mem_of_getElem? (zip_at_turn hi)
  cases ht : turn.template with
  | some t =>
    rw [ht] at hmem
    exact ⟨t, rfl, h.bodies _ t hmem⟩
  | none =>
    rw [ht] at hmem
    have hnative := h.natives _ hmem
    unfold Module.isNative at hnative
    rw [hcontent] at hnative
    cases hnative

end Program.Compiled

/-- a template that is laid down for one of the modules up to a place -/
def Program.LaidUpTo (p : Program) (k : Nat) (t : Template) : Prop :=
  ∃ j m scope, j ≤ k ∧ p.modules[j]? = some m ∧ Job.Lays ⟨p, m⟩ scope t

namespace Program

variable {k : Nat}

theorem LaidUpTo.nested (h : p.LaidUpTo k t) (hordered : p.arena.Ordered) {u : Template} (hu : u ∈ t.nested) :
    p.LaidUpTo k u := by
  obtain ⟨j, m, scope, hj, hm, hlays⟩ := h
  obtain ⟨inner, _, hinner⟩ := hlays.nested hordered hu
  exact ⟨j, m, inner, hj, hm, hinner⟩

theorem LaidUpTo.later (h : p.LaidUpTo k t) : p.LaidUpTo (k + 1) t := by
  obtain ⟨j, m, scope, hj, hlays⟩ := h
  exact ⟨j, m, scope, Nat.le_succ_of_le hj, hlays⟩

theorem Compiled.laidUpTo (h : p.Compiled templates) (hk : (p.modules.zip templates)[k]? = some (m, some t)) :
    p.LaidUpTo k t :=
  ⟨k, m, _, Nat.le_refl k, (List.getElem?_zip_eq_some.1 hk).1, (h.bodies m t (List.mem_of_getElem? hk)).laid⟩

end Program

/-! ## How the turns line up -/

/-- how the turns of the modules of a program follow each other, and what they have from each other -/
structure LinesUp (host : Host σ) (fuel : Nat) (p : Program) (turns : List (Turn σ)) : Prop where
  runs : ∀ turn ∈ turns,
    Toolchain.runModule host fuel p turn.linked turn.template turn.before = (turn.outcome, turn.after)
  order : turns.map Turn.linked <+: p.modules
  /-- no module has two turns -/
  once : (turns.map Turn.key).Nodup
  registers : ∀ turn ∈ turns, ∀ value, turn.outcome = .ok value → ∃ exports, turn.Registers host fuel p value exports
  /-- a module that fails does so in its body, not where its exports are collected -/
  fails : ∀ turn ∈ turns, ∀ error, turn.outcome = .error error → ∃ t stop last, turn.template = some t ∧
    (Moment.started t turn.before).run host fuel = .error stop last ∧ error = .ofStop stop
  /-- what a module has a link to is registered when the module has its turn -/
  linked : ∀ (i : Nat) (turn : Turn σ) path place, turns[i]? = some turn → turn.linked.links.find? path = some place →
    place < i ∧ ∃ dependency exports, turns[place]? = some dependency ∧ dependency.Precedes host fuel p exports turn
  /-- an import has a link, and if the body of the module ends, all that the import asks for has been fetched -/
  imports : ∀ (i : Nat) (turn : Turn σ) (body : Block) path names span, turns[i]? = some turn →
    turn.linked.module.content = .source body → .use path names span ∈ body.body →
    ∃ place dependency, turn.linked.links.find? path = some place ∧
      turns[place]? = some dependency ∧ ∀ value, turn.outcome = .ok value →
        ∀ name ∈ Compile.importedNames (p.arena.exports dependency.linked.scopes.global) names,
          ∃ t q, turn.template = some t ∧ Meets host (.started t turn.before) 0 q ∧
            q.instruction? = some (.loadImport dependency.key name)
  /-- what is fetched in the body of a module is an earlier module's export, and goes into the variable of its name -/
  fetches : ∀ (i : Nat) (turn : Turn σ) t q key name, turns[i]? = some turn → turn.template = some t →
    Meets host (.started t turn.before) 0 q → q.instruction? = some (.loadImport key name) →
      ∃ j dependency exports v s w, j < i ∧ turns[j]? = some dependency ∧ dependency.key = key ∧
        dependency.Precedes host fuel p exports turn ∧ dependency.Gives host fuel p name v ∧
        p.arena.get? turn.linked.scopes.global = some s ∧ s.find? name = some w ∧ q.Imports host w.cell v

namespace Program.Compiled

open Toolchain (turns)

variable (h : p.Compiled templates)

include h

theorem linesUp : LinesUp host fuel p (turns host fuel p (p.modules.zip templates) start) := by
  have horder : (turns host fuel p (p.modules.zip templates) start).map Turn.linked <+: p.modules := by
    have hfront : (turns host fuel p (p.modules.zip templates) start).map _ <+: _ := Toolchain.turns_prefix _ start
    replace hfront := hfront.map Prod.fst
    rw [h.fst_zip, List.map_map] at hfront
    exact hfront
  refine ⟨fun turn hturn => Toolchain.runModule_of_mem_turns hturn, horder, ?_,
    fun turn hturn value hok => h.registers hturn hok, fun turn hturn error herror => h.fails hturn herror,
    fun i turn path place hi hfind => ?_, fun i turn body path names span hi hcontent huse => ?_,
    fun i turn t q key name hi ht hmet hfetch => ?_⟩
  · have hkeys := horder.map fun m => m.module.key
    rw [List.map_map] at hkeys
    exact h.keys.sublist hkeys.sublist
  · have hlt := h.earlier i turn.linked path place (module_at_turn hi) hfind
    exact ⟨hlt, h.precedes hi hlt⟩
  · obtain ⟨t, ht, hcode⟩ := h.exists_code hi hcontent
    obtain ⟨place, linked, hfind, hplace, hcertain⟩ := hcode.imported body path names span hcontent huse
    obtain ⟨dependency, _, hj, _⟩ := h.precedes hi (h.earlier i turn.linked path place (module_at_turn hi) hfind)
    obtain rfl : linked = dependency.linked := Option.some.inj (hplace.symm.trans (module_at_turn hj))
    refine ⟨place, dependency, hfind, hj, fun value hok name hname => ?_⟩
    have hrun := Toolchain.runModule_of_mem_turns (List.mem_of_getElem? hi)
    rw [hok] at hrun
    obtain ⟨native, hnative, _⟩ | ⟨_, t', v, left, last, _, _, ht', hrun, _, _⟩ := Toolchain.runModule_ok hrun
    · rw [hcontent] at hnative
      cases hnative
    · obtain rfl : t = t' := Option.some.inj (ht.symm.trans ht')
      obtain ⟨final, hmet, _, hleaves⟩ := Moment.exists_leaving hrun
      obtain ⟨mid, _, hmid, hfetch, _⟩ := hcode.comes hmet hleaves (hcertain name hname)
      exact ⟨t, mid, ht, hmid, hfetch⟩
  · have hmem := List.mem_of_getElem? (zip_at_turn hi)
    rw [ht] at hmem
    obtain ⟨hsupplies, s, w, hs, hw, himports⟩ := (h.bodies _ t hmem).fetches h.wellFormed hmet hfetch
    obtain ⟨j, dependency, exports, v, hlt, hj, hkey, hprecedes, hgives, hv⟩ :=
      h.exists_export (module_at_turn hi) (Nat.le_refl i) hi hsupplies
    refine ⟨j, dependency, exports, v, s, w, hlt, hj, hkey, hprecedes, hgives, hs, hw, himports v ?_⟩
    unfold Machine.export?
    rw [hmet.modules]
    exact hv

/-- functions that are around when a module has its turn are made from templates of that module and those before it -/
theorem only_laid (hhost : host.Conserves holds) {memory : σ} (hmemory : holds memory = []) {limit : Nat}
    (hi : (turns host fuel p (p.modules.zip templates) (.new host limit memory))[i]? = some turn) :
    Run.Only (p.LaidUpTo i) holds limit 0 turn.before := by
  have hbefore : Run.Only (p.LaidUpTo (0 + i)) holds limit 0 turn.before :=
    Toolchain.only_of_turns hhost (fun _ _ ht _ hu => ht.nested h.wellFormed.ordered hu) (fun _ _ ht => ht.later)
      (fun k linked t hk => by
        rw [Nat.zero_add]
        exact h.laidUpTo hk) (Toolchain.only_new hhost hmemory) hi
  rwa [Nat.zero_add] at hbefore

/-- whatever function it is fetched in, no export is missed, where the host makes no functions of its own -/
theorem finds_exports (hhost : host.Conserves holds) {memory : σ} (hmemory : holds memory = []) {limit n : Nat}
    (hi : (turns host fuel p (p.modules.zip templates) (.new host limit memory))[i]? = some turn)
    (ht : turn.template = some t) (hmet : Meets host (.started t turn.before) n q) :
    ¬ q.Faults host (.missingExport key name) := by
  have hnested (t : Template) (ht : p.LaidUpTo i t) : ∀ u ∈ t.nested, p.LaidUpTo i u :=
    fun u hu => ht.nested h.wellFormed.ordered hu
  have hstart := (h.only_laid hhost hmemory hi).started (h.laidUpTo (ht ▸ zip_at_turn hi))
  have hready := (ready_lasting hhost hnested).meets 0 (fun _ _ _ => trivial) hstart hmet
  obtain ⟨j, m, scope, hj, hm, hlays⟩ := hready.template
  rintro ⟨instruction, after, hfetch, hx⟩
  obtain ⟨rfl, hnone⟩ := Run.blames_of_execute hx
  obtain ⟨hsupplies, _⟩ := hlays.fetches q.place key name hfetch
  obtain ⟨_, _, _, v, _, _, _, _, _, hv⟩ := h.exists_export hm hj hi hsupplies
  -- nothing is registered while a body is run
  unfold Machine.export? at hv hnone
  rw [hmet.modules] at hnone
  cases hnone.symm.trans hv

end Program.Compiled

/-! ## The run of a program -/

namespace Toolchain

variable {toolchain : Toolchain} {memory : σ}

/-- the turns of the modules of a program when it is executed -/
def turnsOf (toolchain : Toolchain) (host : Host σ) (p : Program) (memory : σ) (templates : List (Option Template)) :
    List (Turn σ) :=
  turns host (Toolchain.fuel toolchain.maxCallDepth templates) p (p.modules.zip templates)
    (.new host toolchain.maxCallDepth memory)

/-- where all modules of a program have had their turns, the last was that of its root -/
theorem linked_of_all (h : p.Compiled templates) {turns : List (Turn σ)} {last : Turn σ} {root : LinkedModule}
    (hall : turns.map (fun turn => (turn.linked, turn.template)) = p.modules.zip templates)
    (hlast : turns.getLast? = some last) (hroot : p.root? = some root) :
    turns.map Turn.linked = p.modules ∧ last.linked = root := by
  have hmodules := congrArg (List.map Prod.fst) hall
  rw [h.fst_zip, List.map_map] at hmodules
  replace hmodules : turns.map Turn.linked = p.modules := hmodules
  have hmap := congrArg List.getLast? hmodules
  rw [List.getLast?_map, hlast] at hmap
  exact ⟨hmodules, Option.some.inj (hmap.trans hroot)⟩

/-- a program comes to what the last of its turns comes to, which is that of its root if it does not fail -/
theorem execute_turns (h : p.Compiled templates) (hcompile : p.compile = .ok templates) {root : LinkedModule}
    (hroot : p.root? = some root) (hsource : root.module.isNative = false) :
    ∃ last, (toolchain.turnsOf host p memory templates).getLast? = some last ∧
      match (toolchain.execute host p memory).1 with
      | .error error => last.outcome = .error error
      | .ok value => (toolchain.turnsOf host p memory templates).map Turn.linked = p.modules ∧ last.linked = root ∧
          last.outcome = .ok (some value) := by
  have hne : p.modules.zip templates ≠ [] := by
    intro hnil
    unfold Program.root? at hroot
    rw [← h.fst_zip, hnil] at hroot
    cases hroot
  obtain ⟨last, hlast, _, houtcome⟩ : ∃ last, (toolchain.turnsOf host p memory templates).getLast? = some last ∧ _ :=
    runModules_turns hne none _
  refine ⟨last, hlast, ?_⟩
  unfold execute compile
  rw [hcompile]
  dsimp only [Except.mapError]
  generalize runModules host (Toolchain.fuel toolchain.maxCallDepth templates) p (p.modules.zip templates) none
    (.new host toolchain.maxCallDepth memory) = ran at houtcome ⊢
  obtain ⟨result, after⟩ := ran
  cases hlastOutcome : last.outcome with
  | error error =>
    rw [hlastOutcome] at houtcome
    obtain rfl : result = .error error := houtcome
    rfl
  | ok value =>
    rw [hlastOutcome] at houtcome
    obtain ⟨hall, hvalue⟩ := houtcome
    obtain ⟨hmodules, hlinked⟩ := linked_of_all h hall hlast hroot
    obtain ⟨exports, hregisters⟩ := h.registers (List.mem_of_getLast? hlast) hlastOutcome
    cases value with
    | none =>
      have hnative : last.linked.module.isNative = true := hregisters.value
      rw [hlinked, hsource] at hnative
      cases hnative
    | some value =>
      obtain rfl : result = .ok (some value) := hvalue value rfl
      exact ⟨hmodules, hlinked, rfl⟩

/-- every moment that the run of a program meets is one of the body of a module that has its turn -/
theorem Meets.exists_turn (hcompile : p.compile = .ok templates) {n : Nat} (h : toolchain.Meets host p memory n q) :
    ∃ turn ∈ toolchain.turnsOf host p memory templates, ∃ t, turn.template = some t ∧
      TypedScript.Meets host (.started t turn.before) n q := by
  obtain ⟨found, start, hfound, hstarts, hmet⟩ := h
  obtain rfl := Except.ok.inj (hcompile.symm.trans hfound)
  obtain ⟨turn, hturn, t, ht, rfl⟩ := hstarts.exists_turn
  exact ⟨turn, hturn, t, ht, hmet⟩

/-- no export is missed in the run of a program with a host that makes no functions of its own -/
theorem execute_finds_exports (h : p.Compiled templates) (hcompile : p.compile = .ok templates)
    (hhost : host.Conserves holds) (hmemory : holds memory = []) (key name : String) :
    (∀ n q, toolchain.Meets host p memory n q → ¬ q.Faults host (.missingExport key name)) ∧
      (toolchain.execute host p memory).1 ≠ .error (.runtime (.missingExport key name)) := by
  have hmoments (n : Nat) (q : Moment σ) (hmet : toolchain.Meets host p memory n q) :
      ¬ q.Faults host (.missingExport key name) := by
    obtain ⟨turn, hturn, t, ht, hmet⟩ := hmet.exists_turn hcompile
    obtain ⟨i, hi⟩ := List.getElem?_of_mem hturn
    exact h.finds_exports hhost hmemory hi ht hmet
  refine ⟨hmoments, fun hfault => ?_⟩
  obtain ⟨start, _, ⟨n, q, hmet, hfaults⟩ | ⟨_, _, _, _, _, _, _, _, _, _, _, _, _, _, _, hload⟩⟩ :=
    Toolchain.execute_fault hfault
  · exact hmoments n q hmet hfaults
  · obtain ⟨hcell, _⟩ | ⟨hcell, _⟩ := Store.load_fault hload
    · cases hcell
    · cases hcell

end Toolchain

/-- Whatever is wrong with it and in whichever arena it is checked, a module exports the declarations marked for export
that stand directly in its body and have new names, in their order and with their recorded types. In a checked program
the modules have their turns in order, each once and after all that it imports; collecting exports never fails; what is
imported is registered then, and has the value that the exported variable had at the end of its module's body; the
program comes to the result and the exports of its root. With a host that makes no functions of its own no export is
missed. -/
theorem exports_line_up :
    (∀ (arena : Arena) (body : Block) (imports : Imports),
      let checked := checkModule arena body imports
      let exports := checked.2.exports checked.1.global
      exports = Check.exportsIn (Check.top imports arena) (imports.exports arena) [] (Check.start arena) body.body ∧
        (exports.map Prod.fst).Nodup ∧ ∀ e ∈ exports, checked.2.Records checked.1.global e) ∧
    ∀ {σ : Type} (toolchain : Toolchain) (host : Host σ) (memory : σ) {rootPath text : String} {body : Block}
      {loader : Loader} {natives : List NativeModule} {g : Graph} {p : Program}, parse text = .ok body →
      Graph.build rootPath body loader natives = .ok g → link g = .ok p → p.hasErrors = false →
      ∃ templates root, p.compile = .ok templates ∧ p.root? = some root ∧ root.module = .ofSource rootPath body ∧
        let turns := toolchain.turnsOf host p memory templates
        LinesUp host (Toolchain.fuel toolchain.maxCallDepth templates) p turns ∧
        (∃ last, turns.getLast? = some last ∧
          match (toolchain.execute host p memory).1 with
          | .error error => last.outcome = .error error
          | .ok value => turns.map Turn.linked = p.modules ∧ last.linked = root ∧ last.outcome = .ok (some value)) ∧
        (∀ n q, toolchain.Meets host p memory n q → ∃ turn ∈ turns, ∃ t, turn.template = some t ∧
          Meets host (.started t turn.before) n q) ∧
        ∀ holds, host.Conserves holds → holds memory = [] → ∀ key name,
          (∀ n q, toolchain.Meets host p memory n q → ¬ q.Faults host (.missingExport key name)) ∧
            (toolchain.execute host p memory).1 ≠ .error (.runtime (.missingExport key name)) := by
  refine ⟨checkModule_exports, ?_⟩
  intro σ toolchain host memory rootPath text body loader natives g p hparse hbuild hlink hclean
  have hbuilt := Graph.built_of_build hparse hbuild
  have hcompile := compile_eq (fun m hm => linked_made hbuilt hlink hm) hlink hclean
  have hcompiled := Program.compiled hbuilt hlink hclean hcompile
  obtain ⟨root, hroot, hmodule⟩ := Program.root_module hbuild hbuilt hlink
  have hsource : root.module.isNative = false := by
    rw [hmodule]
    rfl
  exact ⟨_, root, hcompile, hroot, hmodule, hcompiled.linesUp, Toolchain.execute_turns hcompiled hcompile hroot hsource,
    fun n q hmet => hmet.exists_turn hcompile,
    fun holds hhost hmemory => Toolchain.execute_finds_exports hcompiled hcompile hhost hmemory⟩

/-- the text of a module that imports a name, declares one inside of a condition, and marks both for export, and another
name twice -/
def redeclaring : String :=
  "use \"io\"; pub let print := 0; pub let one := 1; pub let one := \"2\"; if one < 2 { let inner := 3; }
  pub let inner := 4; pub let two: Str := one;"

theorem redeclaring_exports : (parse redeclaring).toOption.any (fun body =>
    ((Check.exportsIn (Check.top (Table.empty.insert "io" 0) (printer .empty))
      (Imports.exports (Table.empty.insert "io" 0) (printer .empty)) [] (Check.start (printer .empty)) body.body).map
        fun e => (e.1, e.2.render)) = [("one", "Int"), ("two", "Str")]) = true := by
  set_option maxRecDepth 100000 in decide +kernel

theorem halving_turns : (assembled "main" halving halvingLibrary [doubles]).any (fun x =>
    !x.2.2.hasErrors && match x.2.2.compile with
      | .error _ => false
      | .ok templates =>
        decide ((Toolchain.default.turnsOf doubling x.2.2 0 templates).map Turn.key = ["doubles", "lib", "main"]) &&
          match (Toolchain.default.execute doubling x.2.2 0).1 with
          | .ok _ => true
          | .error _ => false) = true := by
  set_option maxRecDepth 100000 in decide +kernel

theorem exports_line_up_halving :
    (∃ body, parse redeclaring = .ok body ∧
      let checked := checkModule (printer .empty) body (Table.empty.insert "io" 0)
      ((checked.2.exports checked.1.global).map fun e => (e.1, e.2.render)) = [("one", "Int"), ("two", "Str")]) ∧
    ∃ body g p templates root last value, parse halving = .ok body ∧
      Graph.build "main" body halvingLibrary [doubles] = .ok g ∧ link g = .ok p ∧ p.hasErrors = false ∧
      p.compile = .ok templates ∧ (Toolchain.default.turnsOf doubling p 0 templates).map Turn.key =
        ["doubles", "lib", "main"] ∧
      LinesUp doubling (Toolchain.fuel Toolchain.default.maxCallDepth templates) p
        (Toolchain.default.turnsOf doubling p 0 templates) ∧
      (Toolchain.default.execute doubling p 0).1 = .ok value ∧ p.root? = some root ∧
      root.module = .ofSource "main" body ∧ last.linked = root ∧ last.outcome = .ok (some value) ∧
      (Toolchain.default.turnsOf doubling p 0 templates).getLast? = some last ∧
      doubling.Conserves (fun _ => []) ∧
      ∀ n q key name, Toolchain.default.Meets doubling p 0 n q → ¬ q.Faults doubling (.missingExport key name) := by
  refine ⟨?_, ?_⟩
  · have hchecks := redeclaring_exports
    cases hparse : parse redeclaring with
    | error error => rw [hparse] at hchecks; cases hchecks
    | ok body =>
      rw [hparse] at hchecks
      obtain ⟨hexports, _⟩ := exports_line_up.1 (printer .empty) body (Table.empty.insert "io" 0)
      refine ⟨body, rfl, ?_⟩
      dsimp only at hexports ⊢
      rw [hexports]
      exact of_decide_eq_true hchecks
  · obtain ⟨⟨body, g, p⟩, hassembled, hchecks⟩ := (Option.any_eq_true _ _).1 halving_turns
    obtain ⟨hparse, hbuild, hlink⟩ := assembled_eq hassembled
    obtain ⟨hclean, hturns⟩ := Bool.and_eq_true_iff.1 hchecks
    replace hclean : p.hasErrors = false := by simpa using hclean
    obtain ⟨templates, root, hcompile, hroot, hmodule, hlinesUp, ⟨last, hlast, houtcome⟩, _, hfinds⟩ :=
      exports_line_up.2 Toolchain.default doubling 0 hparse hbuild hlink hclean
    rw [hcompile] at hturns
    obtain ⟨hkeys, hvalue⟩ := Bool.and_eq_true_iff.1 hturns
    cases hexecute : (Toolchain.default.execute doubling p 0).1 with
    | error error => rw [hexecute] at hvalue; cases hvalue
    | ok value =>
      rw [hexecute] at houtcome
      obtain ⟨_, hlinked, hok⟩ := houtcome
      exact ⟨body, g, p, templates, root, last, value, hparse, hbuild, hlink, hclean, hcompile, of_decide_eq_true hkeys,
        hlinesUp, hexecute, hroot, hmodule, hlinked, hok, hlast, doubling_conserves,
        fun n q key name hmet => (hfinds _ doubling_conserves rfl key name).1 n q hmet⟩

end TypedScript
