/-
What calls give. The check compares each `return` of a function with the type that the function is declared to give, but
not the end of its body, where code is laid down that gives nothing. So in a program in which nothing was found wrong a
call gives a value of the declared type wherever no way through the function leads to that code.

- `Bound.Function.returns`: so it is for a function with a `return` that stands in no condition.
- `Program.types_hold`: the templates of a program are as their function literals are declared.
- `calls_return_declared`: what the calls of a run give.
- `call_without_value`: a call that comes to that code, in a program in which nothing was found wrong.
-/
import TypedScript.Proofs.Machine.Typed
import TypedScript.Proofs.StackDiscipline
import TypedScript.Proofs.TypeSoundness

namespace TypedScript

/-- the function literals in the trees of a graph's modules -/
def Graph.literals (g : Graph) : List Bound.Function := (g.trees.filterMap id).flatMap Bound.Function.literals

theorem Graph.mem_literals {g : Graph} {f : Bound.Function} :
    f ∈ g.literals ↔ ∃ t, some t ∈ g.trees ∧ f ∈ t.literals := by
  unfold literals
  simp

/-! ## Types in a program -/

namespace Program

variable {natives : List NativeModule} {g : Graph} {p : Program}

/-- what is asked of a program whose calls are to give what they are declared to: no annotation and no native signature
mentions `Any`, nor does a native signature mention the type of what failed to check -/
structure Plain (natives : List NativeModule) (p : Program) : Prop where
  signatures : ∀ native ∈ natives, ∀ b ∈ native.builtins, b.signature.ty.isGenuine = true
  nodes : ∀ m ∈ p.modules, ∀ body ∈ m.module.body?, ∀ x ∈ body.nodes, x.Plain

instance (natives : List NativeModule) (p : Program) : Decidable (p.Plain natives) :=
  decidable_of_iff
    ((∀ native ∈ natives, ∀ b ∈ native.builtins, b.signature.ty.isGenuine = true) ∧
      ∀ m ∈ p.modules, ∀ body ∈ m.module.body?, ∀ x ∈ body.nodes, x.Plain)
    ⟨fun h => ⟨h.1, h.2⟩, fun h => ⟨h.signatures, h.nodes⟩⟩

/-- what is known of types in a program -/
def types (natives : List NativeModule) (g : Graph) (p : Program) : Types where
  cells := p.arena.typeOf?
  exports := p.exportType p.modules
  body
    | some signature, t => ∃ f ∈ g.literals, f.signature = signature ∧ f.template false = t
    | none, t => ∃ f, some f ∈ g.trees ∧ f.template true = t
  known := Provided natives

/-- a function literal is known as what its template is the code of -/
theorem types_made {f : Bound.Function} (hf : f ∈ g.literals) :
    (p.types natives g).made f.signature (f.template false) :=
  ⟨f, hf, rfl, rfl⟩

theorem exportType_take (hkeys : p.order.Nodup) {k : Nat} {key name : String} {ty : Ty}
    (h : p.exportType (p.modules.take k) key name = some ty) : p.exportType p.modules key name = some ty := by
  obtain ⟨m, hm, rfl, hexport⟩ := exists_of_exportType h
  rw [exportType_of_mem hkeys (List.mem_of_mem_take hm)]
  exact hexport

/-- the templates of a clean program hold what the function literals that they come from are declared with -/
theorem types_hold (hbuilt : g.Built natives) (hlink : link g = .ok p) (hclean : p.hasErrors = false)
    (hplain : p.Plain natives)
    (hreturns : ∀ f ∈ g.literals, f.signature.result ≠ .void → (f.template false).Returns) :
    (p.types natives g).Hold := by
  obtain ⟨_, hgood⟩ := linked_good hlink
  have hkeys := linked_keys hbuilt hlink
  have herror : ¬ Ty.error.isGenuine = true := nofun
  have htree {t : Bound.Function} (ht : some t ∈ g.trees) :
      ∃ k, Bound.FitStmts p.arena.typeOf? (fun ty => ty.isGenuine = true)
        (p.exportType (p.modules.take k)) none t.body := by
    obtain ⟨k, hk⟩ := List.mem_iff_getElem?.1 ht
    obtain ⟨hlt, _⟩ := List.getElem?_eq_some_iff.1 hk
    have hm := List.getElem?_eq_getElem (hgood.length ▸ hlt)
    exact ⟨k, (fitAt Ty.kind_genuine hbuilt hlink hclean hplain.signatures hplain.nodes hm hk).1 t rfl⟩
  have hliteral {f : Bound.Function} (hf : f ∈ g.literals) :
      Bound.FitFunction p.arena.typeOf? (fun ty => ty.isGenuine = true) f := by
    obtain ⟨t, ht, hf⟩ := Graph.mem_literals.1 hf
    obtain ⟨k, hfit⟩ := htree ht
    obtain ⟨number, signature, params, locals, body⟩ := t
    exact hfit.literals f hf
  refine ⟨?_, fun around t hbody => ?_, ?_⟩
  · rintro signature t ⟨f, hf, rfl, rfl⟩
    obtain ⟨number, signature, params, locals, body⟩ := f
    cases hliteral hf with
    | mk types _ => exact types
  · cases around with
    | some signature =>
      obtain ⟨f, hf, rfl, rfl⟩ := hbody
      refine (hliteral hf).operands herror fun h hh => types_made ?_
      obtain ⟨t, ht, hf⟩ := Graph.mem_literals.1 hf
      exact Graph.mem_literals.2 ⟨t, ht, Bound.Function.literals_inside hh hf⟩
    | none =>
      obtain ⟨t, ht, rfl⟩ := hbody
      obtain ⟨k, hfit⟩ := htree ht
      refine hfit.operands herror (fun _ _ _ => exportType_take hkeys) fun h hh => types_made ?_
      exact Graph.mem_literals.2 ⟨t, ht, hh⟩
  · rintro signature t ⟨f, hf, rfl, rfl⟩ hgives
    exact hreturns f hf hgives

end Program

/-! ## Runs -/

namespace Toolchain

variable {σ : Type} {ok : σ → Prop} {host : Host σ} {natives : List NativeModule} {g : Graph}
  {p : Program} {turns : Nat}
  {linked : LinkedModule} {template : Option Template} {value : Option ModuleValue} {m m' : Machine σ} {q : Moment σ}

/-- the exports of a module have the types that are recorded for them, once its body has run -/
theorem runModule_typed (hbuilt : g.Built natives) (hlink : link g = .ok p) (hclean : p.hasErrors = false)
    (hT : (p.types natives g).Hold) (hhost : host.Answers (p.types natives g) ok) (hlinked : linked ∈ p.modules)
    (htemplate : ∀ t, template = some t → (p.types natives g).body none t) (hm : m.Typed (p.types natives g) ok)
    (h : runModule host turns p linked template m = (.ok value, m')) : m'.Typed (p.types natives g) ok := by
  obtain ⟨_, hgood⟩ := linked_good hlink
  have hrecorded (name : String) : (p.types natives g).exports linked.module.key name =
      p.arena.export? linked.scopes.global name := Program.exportType_of_mem (linked_keys hbuilt hlink) hlinked name
  obtain ⟨native, hcontent, rfl⟩ | ⟨body, t, v, left, last, exports, _, rfl, hrun, hcollect, rfl⟩ := runModule_ok h
  · obtain ⟨hprovided, hkey, hexports⟩ := Program.native_exports hbuilt hlink hclean hlinked hcontent
    refine hm.register fun name v hv ty hty => ?_
    obtain ⟨b, hb, rfl, hexport⟩ := Program.builtin_of_export hgood.wellFormed hexports hv
    rw [← hkey, hrecorded, hexport] at hty
    cases hty
    exact Or.inr ⟨b, rfl, rfl, native, hprovided, hb⟩
  · obtain ⟨final, _, hfinal, _, hleaves⟩ := (typed_lasting hT hhost).exists_last 0 (fun _ _ hmet => ⟨_, hmet.way⟩)
      (.started hm hT (htemplate t rfl)) hrun
    obtain rfl := hleaves.machine_eq
    refine hfinal.machine.register fun name v hv ty hty => ?_
    obtain hnone | ⟨s, w, hs, hw, hload⟩ := Direct.load_of_collect hcollect hv
    · cases hnone
    · obtain ⟨holder, hslot⟩ := Store.slot?_of_load hload
      refine hfinal.machine.cells holder w.cell.id v hslot ty ?_
      -- the export has the type of its variable
      rw [hrecorded] at hty
      obtain ⟨s', w', hs', hw', hsame⟩ := hgood.wellFormed.exported_find? (Arena.mem_of_export? hty)
      obtain rfl : s = s' := Option.some.inj (hs.symm.trans hs')
      obtain rfl : w = w' := Option.some.inj (hw.symm.trans hw')
      replace hsame : w.ty = ty := hsame
      rw [← hsame]
      exact hgood.wellFormed.typeOf? hs (Arena.mem_of_find? hw)

variable {t : Toolchain} {memory : σ}

/-- the values of a moment that the run of a program meets have the types of their places -/
theorem Meets.typed (hbuilt : g.Built natives) (hlink : link g = .ok p) (hclean : p.hasErrors = false)
    (hT : (p.types natives g).Hold) (hhost : host.Answers (p.types natives g) ok) (hok : ok memory) {n : Nat}
    (h : t.Meets host p memory n q) : q.Reached ∧ q.Typed (p.types natives g) ok := by
  obtain ⟨templates, start, hcompile, hstarts, hmet⟩ := h
  have hbodies {linked : LinkedModule} {u : Template} (hmem : (linked, some u) ∈ p.modules.zip templates) :
      (p.types natives g).body none u := by
    rw [compile_eq (fun m hm => linked_made hbuilt hlink hm) hlink hclean] at hcompile
    cases hcompile
    obtain ⟨tree, htree, hu⟩ := List.mem_map.1 (List.of_mem_zip hmem).2
    obtain ⟨f, rfl, rfl⟩ := Option.map_eq_some_iff.1 hu
    exact ⟨f, htree, rfl⟩
  obtain ⟨linked, _, u, m, hmem, _, hm, rfl⟩ := hstarts.keeps
    (J := fun m => m.Typed (p.types natives g) ok) (fun linked u before value after hmem _ hbefore hrun => by
      have hmodule := (List.of_mem_zip hmem).1
      exact runModule_typed hbuilt hlink hclean hT hhost hmodule (fun v hv => hbodies (hv ▸ hmem)) hbefore hrun)
    (.new hhost hok _)
  have hstart : (Moment.started u m).Typed (p.types natives g) ok := .started hm hT (hbodies hmem)
  exact ⟨⟨_, hmet.way⟩, (typed_lasting hT hhost).meets 0 (fun _ _ hmet => ⟨_, hmet.way⟩) hstart hmet⟩

end Toolchain

/-- a call of a function at a moment, with the frame that is made for it and the machine around -/
structure Call (σ : Type) where
  caller : Moment σ
  callee : Closure
  arguments : List Value
  rest : Operands
  frame : FrameId
  machine : Machine σ

namespace Call

variable {σ : Type}

def Made (host : Host σ) (call : Call σ) : Prop :=
  call.caller.Enters host call.callee call.arguments call.rest call.frame call.machine

/-- the call gives a value -/
def Gives (host : Host σ) (call : Call σ) (v : Value) : Prop :=
  ∃ fuel left m, (Moment.entered call.callee call.frame call.machine).run host fuel = .ok (v, left) m

end Call

section

variable {σ : Type} {ok : σ → Prop} {host : Host σ} {natives : List NativeModule} {g : Graph}
  {p : Program} {t : Toolchain} {memory : σ}

/-- in a run of a clean program that says nowhere `Any`, with a host that answers as its functions are declared, what is
called is a function that comes from a literal of the program, and if the call returns, it gives a value of the type
that the literal is declared to give; provided that in each literal that is declared to give something every way comes
to a `return`, of which the check says nothing -/
theorem calls_return_declared {rootPath text : String} {root : Block} {loader : Loader} (hparse : parse text = .ok root)
    (hbuild : Graph.build rootPath root loader natives = .ok g) (hlink : link g = .ok p) (hclean : p.hasErrors = false)
    (hplain : p.Plain natives) (hhost : host.Answers (p.types natives g) ok) (hok : ok memory)
    (hreturns : ∀ f ∈ g.literals, f.signature.result ≠ .void → (f.template false).Returns) {n : Nat} {call : Call σ}
    {v : Value} (hmet : t.Meets host p memory n call.caller) (hmade : call.Made host) (hgives : call.Gives host v) :
    (∃ f ∈ g.literals, f.template false = call.callee.template) ∧
      ∀ f ∈ g.literals, f.template false = call.callee.template → (p.types natives g).Has f.signature.result v := by
  obtain ⟨fuel, left, m, hrun⟩ := hgives
  have hbuilt := Graph.built_of_build hparse hbuild
  have hT := Program.types_hold hbuilt hlink hclean hplain hreturns
  have htyped {n : Nat} {q : Moment σ} (hmet : t.Meets host p memory n q) := hmet.typed hbuilt hlink hclean hT hhost hok
  obtain ⟨hreached, hcaller⟩ := htyped hmet
  have hinside {k : Nat} {q : Moment σ} (hmet' : Meets host (.entered call.callee call.frame call.machine) k q) :
      q.Reached := by
    obtain ⟨templates, start, hcompile, hstarts, hmeets⟩ := hmet
    exact (htyped ⟨templates, start, hcompile, hstarts, (hmeets.inward (.enter hmade)).trans hmet'⟩).1
  obtain ⟨last, hlast, hholds, hfollows, hleaves⟩ := (typed_lasting hT hhost).exists_last 0 (fun _ _ => hinside)
    (hcaller.enter hT hhost hreached hmade) hrun
  obtain ⟨_, ⟨f, hf, _, htemplate⟩, _⟩ := hcaller.callee hT hhost hreached hmade
  refine ⟨⟨f, hf, htemplate⟩, fun f hf htemplate => hholds.gives hT (hinside hlast) ?_ hleaves⟩
  rw [hfollows.template]
  exact ⟨f, hf, rfl, htemplate⟩

end

/-! ## A program whose calls give what they are declared to -/

section

variable {σ : Type} {host : Host σ} {turns : Nat} {call : Call σ}

/-- the first call that a run makes, where it comes to one within some turns -/
def Moment.firstCall? (host : Host σ) : (turns : Nat) → Moment σ → Option (Call σ)
  | 0, _ => none
  | turns + 1, q =>
    match q.instruction? with
    | none => none
    | some i =>
      match Run.execute host q.frame q.stack i q.machine with
      | .error _ _ => none
      | .ok (.next stack) m => firstCall? host turns (q.onward (q.place + 1) stack m)
      | .ok (.jump target stack) m => firstCall? host turns (q.onward target stack m)
      | .ok (.exit _ _) _ => none
      | .ok (.enter c arguments rest) m =>
        match Run.openCall c arguments m with
        | .error _ _ => none
        | .ok inner m => some ⟨q, c, arguments, rest, inner, m⟩

theorem Moment.meets_firstCall {q : Moment σ} (h : q.firstCall? host turns = some call) :
    Meets host q 0 call.caller ∧ call.Made host := by
  induction turns generalizing q with
  | zero => cases h
  | succ turns ih =>
    unfold firstCall? at h
    split at h
    · cases h
    · next i hi =>
      split at h
      · cases h
      · next stack m hx =>
        obtain ⟨hmet, hmade⟩ := ih h
        exact ⟨(Meets.start.onward (.next ⟨hi, hx⟩)).trans hmet, hmade⟩
      · next target stack m hx =>
        obtain ⟨hmet, hmade⟩ := ih h
        exact ⟨(Meets.start.onward (.jump ⟨hi, hx⟩)).trans hmet, hmade⟩
      · cases h
      · next c arguments rest m hx =>
        split at h
        · cases h
        · next inner m' hopen =>
          cases h
          exact ⟨.start, i, m, ⟨hi, hx⟩, hopen⟩

/-- the first call that some modules make, run one after the other -/
def Toolchain.firstCall? (host : Host σ) (turns : Nat) (p : Program) :
    List (LinkedModule × Option Template) → Machine σ → Option (Call σ)
  | [], _ => none
  | (linked, template) :: rest, m =>
    match linked.module.content, template.bind fun t => (Moment.started t m).firstCall? host turns with
    | .source _, some call => some call
    | _, _ =>
      match runModule host turns p linked template m with
      | (.error _, _) => none
      | (.ok _, m) => firstCall? host turns p rest m

theorem Toolchain.starts_firstCall {p : Program} {ms : List (LinkedModule × Option Template)} {m : Machine σ}
    (h : firstCall? host turns p ms m = some call) :
    ∃ start, Starts host turns p ms m start ∧ TypedScript.Meets host start 0 call.caller ∧ call.Made host := by
  induction ms generalizing m with
  | nil => cases h
  | cons linked ms ih =>
    obtain ⟨linked, template⟩ := linked
    unfold firstCall? at h
    split at h
    · next body found hcontent hfirst =>
      cases h
      obtain ⟨t, rfl, hcall⟩ := Option.bind_eq_some_iff.1 hfirst
      exact ⟨_, .here hcontent, Moment.meets_firstCall hcall⟩
    · split at h
      · cases h
      · next value m' hrun =>
        obtain ⟨start, hstarts, hmet⟩ := ih h
        exact ⟨start, .later hrun hstarts, hmet⟩

/-- the first call that the run of a program makes, where it comes to one -/
def Toolchain.callOf? (t : Toolchain) (host : Host σ) (p : Program) (memory : σ) : Option (Call σ) :=
  match p.compile with
  | .error _ => none
  | .ok templates =>
    firstCall? host (fuel t.maxCallDepth templates) p (p.modules.zip templates) (Machine.new host t.maxCallDepth memory)

theorem Toolchain.meets_callOf {t : Toolchain} {p : Program} {memory : σ} (h : t.callOf? host p memory = some call) :
    t.Meets host p memory 0 call.caller ∧ call.Made host := by
  unfold callOf? at h
  split at h
  · cases h
  · next templates hcompile =>
    obtain ⟨start, hstarts, hmet, hmade⟩ := starts_firstCall h
    exact ⟨⟨templates, start, hcompile, hstarts, hmet⟩, hmade⟩

end

/-- the host answers as its function is declared -/
theorem doubling_answers (g : Graph) (p : Program) : doubling.Answers (p.types [doubles] g) fun _ => True := by
  refine ⟨rfl, fun b hb arguments calls _ _ => ⟨trivial, fun v hv => ?_⟩⟩
  obtain ⟨native, hnative, hmem⟩ := hb
  obtain rfl := List.mem_singleton.1 hnative
  obtain rfl := List.mem_singleton.1 hmem
  exact Value.has_int.2 (exists_of_twice hv)

theorem halving_calls : (assembled "main" halving halvingLibrary [doubles]).any (fun x =>
    !x.2.2.hasErrors && decide (x.2.2.Plain [doubles]) &&
      (x.2.1.literals.all fun f => f.body.any fun s => match s with | .giveBack _ => true | _ => false) &&
      (Toolchain.default.callOf? doubling x.2.2 0).any fun call =>
        match (Moment.entered call.callee call.frame call.machine).run doubling 50 with
        | .ok _ _ => true
        | .error _ _ => false) = true := by
  set_option maxRecDepth 100000 in decide +kernel

theorem calls_return_declared_halving : ∃ body g p n, ∃ call : Call Nat, ∃ v, parse halving = .ok body ∧
    Graph.build "main" body halvingLibrary [doubles] = .ok g ∧ link g = .ok p ∧ p.hasErrors = false ∧
    p.Plain [doubles] ∧ doubling.Answers (p.types [doubles] g) (fun _ => True) ∧
    (∀ f ∈ g.literals, f.signature.result ≠ .void → (f.template false).Returns) ∧
    Toolchain.default.Meets doubling p 0 n call.caller ∧ call.Made doubling ∧ call.Gives doubling v ∧
    ∃ f ∈ g.literals, f.template false = call.callee.template ∧ (p.types [doubles] g).Has f.signature.result v := by
  obtain ⟨⟨body, g, p⟩, hassembled, hchecks⟩ := (Option.any_eq_true _ _).1 halving_calls
  obtain ⟨hparse, hbuild, hlink⟩ := assembled_eq hassembled
  obtain ⟨hchecks, hcall⟩ := Bool.and_eq_true_iff.1 hchecks
  obtain ⟨hchecks, hgives⟩ := Bool.and_eq_true_iff.1 hchecks
  obtain ⟨hclean, hplain⟩ := Bool.and_eq_true_iff.1 hchecks
  replace hclean : p.hasErrors = false := by simpa using hclean
  replace hplain : p.Plain [doubles] := of_decide_eq_true hplain
  have hreturns : ∀ f ∈ g.literals, f.signature.result ≠ .void → (f.template false).Returns := by
    intro f hf _
    obtain ⟨s, hs, hback⟩ := List.any_eq_true.1 (List.all_eq_true.1 hgives f hf)
    cases s with
    | giveBack value => exact Bound.Function.returns hs
    | _ => cases hback
  obtain ⟨call, hfirst, hcall⟩ := (Option.any_eq_true _ _).1 hcall
  obtain ⟨hmeets, hmade⟩ := Toolchain.meets_callOf hfirst
  split at hcall
  · next result m hrun =>
    have hgives : call.Gives doubling result.1 := ⟨50, result.2, m, hrun⟩
    obtain ⟨⟨f, hf, htemplate⟩, hall⟩ := calls_return_declared hparse hbuild hlink hclean hplain
      (doubling_answers g p) trivial hreturns hmeets hmade hgives
    exact ⟨body, g, p, 0, call, result.1, hparse, hbuild, hlink, hclean, hplain, doubling_answers g p, hreturns, hmeets,
      hmade, hgives, f, hf, htemplate, hall f hf htemplate⟩
  · cases hcall

/-! ## A call that comes to the end of its body -/

/-- a function with one `return`, in a condition that does not hold when it is called -/
def dropping : String := "let f := fn(n: Int): Int { if n > 0 { return n; } }; pub let x := f(0) + 1;"

theorem dropping_checks : (assembled "main" dropping (.memory .empty) []).any (fun x =>
    !x.2.2.hasErrors && decide (x.2.2.Plain []) &&
      (x.2.1.literals.all fun f => match f.signature.result with | .int => true | _ => false) &&
      (Toolchain.default.callOf? printing x.2.2 []).any fun call =>
        match (Moment.entered call.callee call.frame call.machine).run printing 50 with
        | .ok (.none, _) _ => true
        | _ => false) = true := by
  set_option maxRecDepth 100000 in decide +kernel

/-- the check accepts it all the same, although it says nowhere `Any` and each of its functions is declared to give a
number, and the call gives no value -/
theorem call_without_value : ∃ body g p n, ∃ call : Call (List String), parse dropping = .ok body ∧
    Graph.build "main" body (.memory .empty) [] = .ok g ∧ link g = .ok p ∧ p.hasErrors = false ∧ p.Plain [] ∧
    printing.Answers (p.types [] g) (fun _ => True) ∧ (∀ f ∈ g.literals, f.signature.result = .int) ∧
    Toolchain.default.Meets printing p [] n call.caller ∧ call.Made printing ∧ call.Gives printing .none := by
  obtain ⟨⟨body, g, p⟩, hassembled, hchecks⟩ := (Option.any_eq_true _ _).1 dropping_checks
  obtain ⟨hparse, hbuild, hlink⟩ := assembled_eq hassembled
  obtain ⟨hchecks, hcall⟩ := Bool.and_eq_true_iff.1 hchecks
  obtain ⟨hchecks, hdeclared⟩ := Bool.and_eq_true_iff.1 hchecks
  obtain ⟨hclean, hplain⟩ := Bool.and_eq_true_iff.1 hchecks
  replace hclean : p.hasErrors = false := by simpa using hclean
  have hanswers : printing.Answers (p.types [] g) fun _ => True := by
    refine ⟨rfl, fun b hb => ?_⟩
    obtain ⟨native, hnative, _⟩ := hb
    cases hnative
  have hint : ∀ f ∈ g.literals, f.signature.result = .int := by
    intro f hf
    have hdeclared := List.all_eq_true.1 hdeclared f hf
    split at hdeclared
    · next hresult => exact hresult
    · cases hdeclared
  obtain ⟨call, hfirst, hcall⟩ := (Option.any_eq_true _ _).1 hcall
  obtain ⟨hmeets, hmade⟩ := Toolchain.meets_callOf hfirst
  split at hcall
  · next left m hrun =>
    exact ⟨body, g, p, 0, call, hparse, hbuild, hlink, hclean, of_decide_eq_true hplain, hanswers, hint, hmeets, hmade,
      50, left, m, hrun⟩
  · cases hcall

end TypedScript
