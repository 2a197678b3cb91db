/-
Moments of typed runs. The operands of a moment have the types that are noted at its place, the cells and exports of its
machine have values of their types, and its frame is that of a call of the function whose code it runs. Where the host
answers as its functions are declared, and no way leads to the end of a function that is declared to give something,
every step of a run keeps these types; so every call gives what the called function is declared to give.

- `Run.Step.typed`: what one instruction does.
- `Moment.Typed.gives`: what an activation gives where it ends.
- `typed_lasting`: every step of a run keeps types.
-/
import TypedScript.Proofs.Bound.Heights
import TypedScript.Proofs.Bound.Stacks
import TypedScript.Proofs.Machine.Running
import TypedScript.Proofs.Machine.Steps
import TypedScript.Proofs.Machine.Types

namespace TypedScript

variable {σ : Type} {T : Types} {ok : σ → Prop} {host : Host σ} {m m' : Machine σ} {q last : Moment σ}
  {around : Option Signature} {tys next : List Ty} {stack : Operands} {i : Instruction} {flow : Flow} {c : Closure}

/-- the values of a type -/
def Types.Has (T : Types) : Ty → Value → Prop := Value.Has T.made T.known

/-- a host answers as its functions are declared: for arguments of the declared types it fails or gives a value of the
declared type, as long as what it remembers is as it should be -/
structure Host.Answers (T : Types) (ok : σ → Prop) (host : Host σ) : Prop where
  store : host.store = .empty
  respond : ∀ b, T.known b → ∀ arguments memory, ok memory → List.Forall₂ T.Has b.signature.params arguments →
    ok (host.respond b.id arguments memory).2 ∧
      ∀ v, (host.respond b.id arguments memory).1 = .ok v → T.Has b.signature.result v

/-- templates are as they are known: those of functions have parameters of the declared types, the operands at each of
their places have types, and where something is declared to be given, no way leads to the end -/
structure Types.Hold (T : Types) : Prop where
  parameters : ∀ signature t, T.body (some signature) t →
    List.Forall₂ (fun cell ty => T.cells cell.id = some ty) t.parameters signature.params
  operands : ∀ around t, T.body around t → ∃ operands, t.Stacks T around operands
  returns : ∀ signature t, T.body (some signature) t → signature.result ≠ .void → t.Returns

/-- the values in a machine have the types of their places -/
structure Machine.Typed (T : Types) (ok : σ → Prop) (m : Machine σ) : Prop where
  cells : ∀ frame id v, m.store.slot? frame id = some (some v) → ∀ ty, T.cells id = some ty → T.Has ty v
  exports : ∀ module name v, m.export? module name = some v → ∀ ty, T.exports module name = some ty → T.Has ty v
  memory : ok m.memory

namespace Machine.Typed

/-- a cell gets a value of its type -/
theorem put (h : m.Typed T ok) {frame : FrameId} (hframe : frame < m.store.frames.size) {id : Nat} {v : Value}
    (hv : ∀ ty, T.cells id = some ty → T.Has ty v) : Typed T ok { m with store := m.store.put frame id (some v) } := by
  refine ⟨fun i j w hw ty hty => ?_, h.exports, h.memory⟩
  rw [Store.slot?_put_eq hframe] at hw
  split at hw
  · next heq =>
    obtain rfl : v = w := Option.some.inj (Option.some.inj hw)
    exact hv ty (heq.2 ▸ hty)
  · exact h.cells i j w hw ty hty

/-- a cell is made -/
theorem reserve (h : m.Typed T ok) (frame : FrameId) (cell : Cell) :
    Typed T ok { m with store := m.store.reserve frame cell } := by
  refine ⟨fun i j v hv ty hty => ?_, h.exports, h.memory⟩
  rcases Store.slot?_put hv with hnone | hold
  · cases hnone
  · exact h.cells i j v hold ty hty

/-- a frame is made and filled with values of the types of its cells -/
theorem newFrame (h : m.Typed T ok) {fr : Frame} (hcells : fr.cells = .empty) {slots : List (Cell × Option Value)}
    (hslots : ∀ cell v, (cell, some v) ∈ slots → ∀ ty, T.cells cell.id = some ty → T.Has ty v) :
    Typed T ok { m with store := (m.store.add fr).2.fill m.store.frames.size slots } := by
  refine ⟨fun i j v hv ty hty => ?_, h.exports, h.memory⟩
  rcases Store.slot?_newFrame hcells hv with ⟨_, cell, hmem, rfl⟩ | hold
  · exact hslots cell v hmem ty hty
  · exact h.cells i j v hold ty hty

/-- exports with values of their types are registered -/
theorem register (h : m.Typed T ok) {module : String} {exports : Exports}
    (hexports : ∀ name v, exports.find? name = some v → ∀ ty, T.exports module name = some ty → T.Has ty v) :
    (m.register module exports).Typed T ok := by
  refine ⟨h.cells, fun other name v hv ty hty => ?_, h.memory⟩
  change ((m.modules.insert module exports).find? other).bind (fun exports => exports.find? name) = some v at hv
  rw [Table.find?_insert] at hv
  split at hv
  · next heq => exact hexports name v hv ty (heq ▸ hty)
  · exact h.exports other name v hv ty hty

/-- before a run there are no values -/
theorem new (hhost : host.Answers T ok) {memory : σ} (hok : ok memory) (limit : Nat) :
    (Machine.new host limit memory).Typed T ok := by
  refine ⟨fun _ _ _ hv => ?_, fun _ _ _ hv => (nomatch hv), hok⟩
  rw [show (Machine.new host limit memory).store = .empty from hhost.store] at hv
  cases hv

end Machine.Typed

/-! ## Instructions -/

/-- what an instruction hands on has the types that it is to have -/
def Flow.Typed (T : Types) (next : List Ty) : Flow → Prop
  | .next stack => List.Forall₂ T.Has next stack
  | .jump _ stack => List.Forall₂ T.Has next stack
  | .exit _ _ => True
  | .enter c arguments rest => ∃ signature tys, next = signature.result :: tys ∧ T.body (some signature) c.template ∧
      List.Forall₂ T.Has signature.params arguments ∧ List.Forall₂ T.Has tys rest

/-- the uppermost operands have the types of what was pushed -/
theorem Operands.forall₂_popN {R : Ty → Value → Prop} {given : List Ty} {values : List Value} {rest : Operands}
    (h : List.Forall₂ R (given.reverse ++ tys) stack) (hpop : stack.popN given.length = .ok (values, rest)) :
    List.Forall₂ R given values ∧ List.Forall₂ R tys rest := by
  unfold Operands.popN at hpop
  split at hpop
  · cases hpop
  · cases hpop
    have htake := List.forall₂_take given.length h
    have hdrop := List.forall₂_drop given.length h
    rw [List.take_left' (List.length_reverse)] at htake
    rw [List.drop_left' (List.length_reverse)] at hdrop
    refine ⟨?_, hdrop⟩
    rw [← List.forall₂_reverse_iff, List.reverse_reverse]
    exact htake

theorem Types.has_constant {c : Constant} {v : Value} (hvalue : c.value? = some v)
    (hturns : (Instruction.push c).Turns T around tys next) (hstack : List.Forall₂ T.Has tys stack) :
    List.Forall₂ T.Has next (v :: stack) := by
  cases hturns with
  | none => cases hvalue; exact .cons rfl hstack
  | int => cases hvalue; exact .cons (Value.has_int.2 ⟨_, rfl⟩) hstack
  | str => cases hvalue; exact .cons (Value.has_str.2 ⟨_, rfl⟩) hstack
  | bool => cases hvalue; exact .cons (Value.has_bool.2 ⟨_, rfl⟩) hstack
  | function => cases hvalue

/-- what is called takes arguments of the types that were pushed for it -/
theorem Types.Has.callee {ty result : Ty} {given : List Ty} {v : Value} (h : T.Has ty v)
    (hfits : ty = .error ∨ ∃ params, ty = .function params result ∧ List.Forall₂ Ty.Fits params given)
    {values : List Value} (hvalues : List.Forall₂ T.Has given values) :
    ∃ params, List.Forall₂ T.Has params values ∧
      ((∃ c, v = .closure c ∧ T.body (some ⟨params, result⟩) c.template) ∨
        ∃ b, v = .builtin b ∧ b.signature = ⟨params, result⟩ ∧ T.known b) := by
  obtain rfl | ⟨params, rfl, hparams⟩ := hfits
  · exact h.elim
  · exact ⟨params, Value.forall₂_has_fits hparams hvalues, h⟩

theorem Types.Has.subscript {target index ty : Ty} {v j u : Value} (hv : T.Has target v) (hj : T.Has index j)
    (hfits : target = .error ∨ index = .error ∨ index = .int ∧
      (target = .str ∧ ty = .optional .str ∨ ∃ element, target = .list element ∧ ty = .optional element))
    (hfound : v.subscript j = .ok u) : T.Has ty u := by
  obtain rfl | rfl | hfits := hfits
  · exact hv.elim
  · exact hj.elim
  · obtain ⟨u', hu', hty⟩ := Value.subscript_has hv hj hfits
    obtain rfl : u' = u := Except.ok.inj (hu'.symm.trans hfound)
    exact hty

theorem Types.Has.binary {op : BinaryOp} {left right ty : Ty} {v w u : Value} (hv : T.Has left v) (hw : T.Has right w)
    (hfits : left = .error ∨ right = .error ∨ op.Takes left right ty) (hresult : op.apply v w = .ok u) :
    T.Has ty u := by
  obtain rfl | rfl | htakes := hfits
  · exact hv.elim
  · exact hw.elim
  · obtain ⟨u', hu', hty⟩ | hzero := Value.apply_has htakes hv hw
    · obtain rfl : u' = u := Except.ok.inj (hu'.symm.trans hresult)
      exact hty
    · rw [hresult] at hzero
      cases hzero

/-- an instruction keeps the machine typed and hands on what has the types that it is to have -/
theorem Run.Step.typed {frame : FrameId} (h : Run.Step host frame m i stack flow m') (hhost : host.Answers T ok)
    (hturns : i.Turns T around tys next) (hm : m.Typed T ok) (hstack : List.Forall₂ T.Has tys stack)
    (hself : ∀ c signature, m.store.running? frame = some c → around = some signature →
      T.body (some signature) c.template) : m'.Typed T ok ∧ flow.Typed T next := by
  cases h with
  | halt => exact ⟨hm, trivial⟩
  | giveBack => exact ⟨hm, trivial⟩
  | constant value => exact ⟨hm, Types.has_constant value hturns hstack⟩
  | function =>
    cases hturns with
    | function made => exact ⟨⟨hm.cells, hm.exports, hm.memory⟩, .cons (Or.inl ⟨_, rfl, made⟩) hstack⟩
  | pop =>
    cases hturns
    cases hstack with
    | cons _ hrest => exact ⟨hm, hrest⟩
  | reserve =>
    cases hturns
    exact ⟨hm.reserve _ _, hstack⟩
  | load found =>
    cases hturns with
    | load type =>
      obtain ⟨holder, hslot⟩ := Store.slot?_of_load found
      exact ⟨hm, .cons (hm.cells _ _ _ hslot _ type) hstack⟩
  | store found =>
    cases hturns with
    | @store _ ty wanted _ type fits =>
      cases hstack with
      | cons hv hrest =>
        obtain ⟨_, hslot⟩ := Store.holder?_some found
        obtain ⟨content, hcontent⟩ := Option.isSome_iff_exists.1 hslot
        refine ⟨hm.put (Store.lt_of_slot? hcontent) fun ty' hty' => ?_, hrest⟩
        obtain rfl : wanted = ty' := Option.some.inj (type.symm.trans hty')
        exact Value.Has.fits hv fits
  | loadSelf found =>
    cases hturns with
    | loadSelf here => exact ⟨hm, .cons (Or.inl ⟨_, rfl, hself _ _ found here⟩) hstack⟩
  | stay =>
    cases hturns
    cases hstack with
    | cons _ hrest => exact ⟨hm, hrest⟩
  | jump =>
    cases hturns
    cases hstack with
    | cons _ hrest => exact ⟨hm, hrest⟩
  | enter deep given =>
    cases hturns with
    | dispatch fits =>
      cases hstack with
      | cons hv hoperands =>
        obtain ⟨harguments, hrest⟩ := Operands.forall₂_popN hoperands given
        obtain ⟨params, hparams, ⟨_, heq, hbody⟩ | ⟨_, heq, _⟩⟩ := hv.callee fits harguments
        · cases heq
          exact ⟨hm, ⟨params, _⟩, _, rfl, hbody, hparams, hrest⟩
        · cases heq
  | @ask _ b _ _ _ _ given answer =>
    cases hturns with
    | dispatch fits =>
      cases hstack with
      | cons hv hoperands =>
        obtain ⟨harguments, hrest⟩ := Operands.forall₂_popN hoperands given
        obtain ⟨params, hparams, ⟨_, heq, _⟩ | ⟨b', heq, hsignature, hknown⟩⟩ := hv.callee fits harguments
        · cases heq
        · obtain rfl : b = b' := Value.builtin.inj heq
          rw [← show b.signature.params = params from congrArg Signature.params hsignature] at hparams
          obtain ⟨hmemory, hanswer⟩ := hhost.respond b hknown _ m.memory hm.memory hparams
          have hresult := hanswer _ answer
          rw [hsignature] at hresult
          exact ⟨⟨hm.cells, hm.exports, hmemory⟩, .cons hresult hrest⟩
  | makeList given =>
    cases hturns with
    | makeList fits =>
      obtain ⟨hitems, hrest⟩ := Operands.forall₂_popN hstack given
      exact ⟨hm, .cons (Value.has_list hitems fits) hrest⟩
  | subscript found =>
    cases hturns with
    | subscript fits =>
      cases hstack with
      | cons hindex hstack =>
        cases hstack with
        | cons htarget hrest => exact ⟨hm, .cons (htarget.subscript hindex fits found) hrest⟩
  | loadImport found =>
    cases hturns with
    | loadImport type => exact ⟨hm, .cons (hm.exports _ _ _ found _ type) hstack⟩
  | binary result =>
    cases hturns with
    | binary fits =>
      cases hstack with
      | cons hright hstack =>
        cases hstack with
        | cons hleft hrest => exact ⟨hm, .cons (hleft.binary hright fits result) hrest⟩

/-- arguments of the types of the parameters are put into cells of these types -/
theorem Types.typed_slots {cells : List Cell} {params : List Ty} {arguments : List Value}
    (hcells : List.Forall₂ (fun cell ty => T.cells cell.id = some ty) cells params)
    (harguments : List.Forall₂ T.Has params arguments) (cell : Cell) (v : Value)
    (hmem : (cell, some v) ∈ (cells.zip arguments).map fun p => (p.1, some p.2)) (ty : Ty)
    (hty : T.cells cell.id = some ty) : T.Has ty v := by
  induction hcells generalizing arguments with
  | nil => cases hmem
  | @cons first wanted cells params hfirst _ ih =>
    cases harguments with
    | cons hv hrest =>
      rcases List.mem_cons.1 hmem with heq | hmem
      · cases heq
        obtain rfl : wanted = ty := Option.some.inj (hfirst.symm.trans hty)
        exact hv
      · exact ih hrest hmem

/-! ## Moments -/

namespace Moment

/-- the operands of a moment have the types that are noted at its place, for whatever function its template is the code
of, and its frame is that of a call of a function with this template -/
structure Typed (T : Types) (ok : σ → Prop) (q : Moment σ) : Prop where
  body : ∃ around, T.body around q.template
  stack : ∀ around, T.body around q.template →
    ∃ operands, q.template.Stacks T around operands ∧ List.Forall₂ T.Has (operands q.place) q.stack
  inside : q.place ≤ q.template.code.length
  made : q.frame < q.machine.store.frames.size
  running : ∀ c, q.machine.store.running? q.frame = some c → c.template = q.template
  machine : q.machine.Typed T ok

/-- some way through the code comes to the place of a moment -/
def Reached (q : Moment σ) : Prop := ∃ height, q.template.Way q.place height

/-- a later moment of the same activation; the frames that were there are still those of the same calls -/
structure Follows (q q' : Moment σ) : Prop where
  template : q'.template = q.template
  frame : q'.frame = q.frame
  size : q.machine.store.frames.size ≤ q'.machine.store.frames.size
  running : ∀ j < q.machine.store.frames.size, q'.machine.store.running? j = q.machine.store.running? j

theorem Follows.refl (q : Moment σ) : q.Follows q := ⟨rfl, rfl, Nat.le_refl _, fun _ _ => rfl⟩

theorem Follows.trans {q₁ q₂ q₃ : Moment σ} (h : q₁.Follows q₂) (h' : q₂.Follows q₃) : q₁.Follows q₃ :=
  ⟨h'.template.trans h.template, h'.frame.trans h.frame, Nat.le_trans h.size h'.size,
    fun j hj => (h'.running j (Nat.lt_of_lt_of_le hj h.size)).trans (h.running j hj)⟩

namespace Typed

/-- where something is declared to be given, the end of the body is not reached -/
theorem suits (hT : T.Hold) (hreached : q.Reached) (hbody : T.body around q.template) {operands : Nat → List Ty}
    (hstacks : q.template.Stacks T around operands) (hi : q.instruction? = some i) :
    Code.Suits (T.rules around) operands q.place q.template.code.length i := by
  refine hstacks.suits q.place i hi fun signature hsignature hgives => ?_
  subst hsignature
  obtain ⟨height, hway⟩ := hreached
  exact hT.returns signature q.template hbody hgives hway

/-- what an instruction hands on has the types that are noted where it leads -/
theorem does (h : q.Typed T ok) (hT : T.Hold) (hhost : host.Answers T ok) (hreached : q.Reached)
    (hbody : T.body around q.template) (hdoes : q.Does host i flow m) {place : Nat} (hleads : place ∈ i.leads q.place) :
    place ≤ q.template.code.length ∧ m.Typed T ok ∧
      ∃ operands, q.template.Stacks T around operands ∧ flow.Typed T (operands place) := by
  obtain ⟨hi, hx⟩ := hdoes
  obtain ⟨operands, hstacks, hstack⟩ := h.stack around hbody
  obtain ⟨_, hle, hturns⟩ := (suits hT hreached hbody hstacks hi).leads place hleads
  have hself (c : Closure) (signature : Signature) (hc : q.machine.store.running? q.frame = some c)
      (hsignature : around = some signature) : T.body (some signature) c.template := by
    rw [h.running c hc, ← hsignature]
    exact hbody
  obtain ⟨hm, hflow⟩ := (Run.Step.of_execute hx).typed hhost hturns h.machine hstack hself
  exact ⟨hle, hm, operands, hstacks, hflow⟩

/-- the activation goes on with what an instruction hands on -/
theorem onward (h : q.Typed T ok) (hT : T.Hold) (hhost : host.Answers T ok) (hreached : q.Reached)
    (hdoes : q.Does host i flow m) {place : Nat} (hleads : place ∈ i.leads q.place) {stack : Operands}
    (hstack : ∀ next, flow.Typed T next → List.Forall₂ T.Has next stack) :
    (q.onward place stack m).Typed T ok ∧ q.Follows (q.onward place stack m) := by
  obtain ⟨hsize, hrunning⟩ := (Run.Step.of_execute hdoes.2).running
  obtain ⟨around, hbody⟩ := h.body
  obtain ⟨hle, hm, _⟩ := h.does hT hhost hreached hbody hdoes hleads
  refine ⟨⟨h.body, fun around hbody => ?_, hle, ?_, fun c hc => ?_, hm⟩, rfl, rfl, Nat.le_of_eq hsize.symm,
    fun j _ => hrunning j⟩
  · obtain ⟨_, _, operands, hstacks, hflow⟩ := h.does hT hhost hreached hbody hdoes hleads
    exact ⟨operands, hstacks, hstack _ hflow⟩
  · change q.frame < m.store.frames.size
    rw [hsize]
    exact h.made
  · exact h.running c ((hrunning q.frame).symm.trans hc)

/-- an activation that ends gives what the function is declared to give -/
theorem gives (h : last.Typed T ok) (hT : T.Hold) (hreached : last.Reached) {signature : Signature}
    (hbody : T.body (some signature) last.template) {v : Value} {left : Operands}
    (hleaves : last.Leaves host v left m) :
    T.Has signature.result v := by
  obtain ⟨operands, hstacks, hstack⟩ := h.stack _ hbody
  obtain ⟨hnone, _⟩ | ⟨i, hi, hx⟩ := hleaves
  · -- behind the code there are no operands that have the types noted there
    have hplace := Nat.le_antisymm h.inside (List.getElem?_eq_none_iff.1 hnone)
    rw [hplace, hstacks.behind] at hstack
    obtain ⟨_, _, herror, _⟩ := List.forall₂_cons_left_iff.1 hstack
    exact herror.elim
  · obtain ⟨hback, hhalt⟩ := (suits hT hreached hbody hstacks hi).here
    obtain rfl | ⟨rfl, heq⟩ := (Run.Step.of_execute hx).exits
    · exact nomatch hhalt rfl
    · obtain ⟨_, ty, rest, hsignature, htys, hfits⟩ := hback rfl
      cases hsignature
      rw [htys, heq] at hstack
      cases hstack with
      | cons hv _ => exact Value.Has.fits hv hfits

/-- the body of a module starts with no operands, in a frame that is not that of a call -/
theorem started {t : Template} (hm : m.Typed T ok) (hT : T.Hold) (hbody : T.body around t) :
    (started t m).Typed T ok := by
  have hmade : m.store.frames.size < m.store.newRoot.2.frames.size := Array.size_push _ ▸ Nat.lt_succ_self _
  have hnone : m.store.newRoot.2.running? m.store.frames.size = none := @Store.running?_newFrame _ m.store _ []
  have hslots (cell : Cell) (v : Value) (hmem : (cell, some v) ∈ []) (ty : Ty) (_ : T.cells cell.id = some ty) :
      T.Has ty v := nomatch hmem
  have hmachine : Machine.Typed T ok { m with store := m.store.newRoot.2.fill m.store.frames.size [] } :=
    hm.newFrame rfl hslots
  refine ⟨⟨around, hbody⟩, fun around hbody => ?_, Nat.zero_le _, hmade, fun d hd => ?_, hmachine⟩
  · obtain ⟨operands, hstacks⟩ := hT.operands around t hbody
    refine ⟨operands, hstacks, ?_⟩
    change List.Forall₂ T.Has (operands 0) []
    rw [hstacks.start]
    exact .nil
  · have hrunning : none = some d := hnone.symm.trans hd
    cases hrunning

/-- what is called is a function that the program makes, and it gets arguments of the types of its parameters -/
theorem callee (h : q.Typed T ok) (hT : T.Hold) (hhost : host.Answers T ok) (hreached : q.Reached)
    {arguments : List Value} {rest : Operands} {inner : FrameId} (henters : q.Enters host c arguments rest inner m) :
    ∃ signature, T.body (some signature) c.template ∧ List.Forall₂ T.Has signature.params arguments := by
  obtain ⟨around, hbody⟩ := h.body
  obtain ⟨i, m₁, hdoes, _⟩ := henters
  obtain ⟨rfl, _⟩ := (Run.Step.of_execute hdoes.2).effect q.place
  obtain ⟨_, _, _, _, signature, _, _, hcallee, harguments, _⟩ :=
    h.does hT hhost hreached hbody hdoes (List.mem_singleton_self (q.place + 1))
  exact ⟨signature, hcallee, harguments⟩

/-- a call starts with arguments of the types of its parameters -/
theorem enter (h : q.Typed T ok) (hT : T.Hold) (hhost : host.Answers T ok) (hreached : q.Reached)
    {arguments : List Value} {rest : Operands} {inner : FrameId} (henters : q.Enters host c arguments rest inner m) :
    (entered c inner m).Typed T ok := by
  obtain ⟨signature, hcallee, harguments⟩ := h.callee hT hhost hreached henters
  obtain ⟨rfl, rfl⟩ := henters.opened
  have hslots := Types.typed_slots (hT.parameters signature c.template hcallee) harguments
  refine ⟨⟨_, hcallee⟩, fun around hbody => ?_, Nat.zero_le _, ?_, fun d hd => ?_, ?_⟩
  · obtain ⟨operands, hstacks⟩ := hT.operands around c.template hbody
    refine ⟨operands, hstacks, ?_⟩
    change List.Forall₂ T.Has (operands 0) []
    rw [hstacks.start]
    exact .nil
  · change q.machine.store.frames.size < (Store.fill _ _ _).frames.size
    rw [Store.size_fill]
    exact Array.size_push _ ▸ Nat.lt_succ_self _
  · have hrunning : some c = some d := Store.running?_newFrame.symm.trans hd
    exact congrArg Closure.template (Option.some.inj hrunning).symm
  · have hm : Machine.Typed T ok { q.machine with store := (q.machine.store.newCall c).2.fill _ _ } :=
      h.machine.newFrame rfl hslots
    exact ⟨hm.cells, hm.exports, hm.memory⟩

/-- the caller goes on with what the call gave -/
theorem back (h : q.Typed T ok) (hT : T.Hold) (hhost : host.Answers T ok) (hreached : q.Reached)
    {arguments : List Value}
    {rest left : Operands} {inner : FrameId} {v : Value} (henters : q.Enters host c arguments rest inner m)
    (hlast : last.Typed T ok) (hreachedLast : last.Reached) (hfollows : (entered c inner m).Follows last)
    (hleaves : last.Leaves host v left m') :
    (q.returned v rest m').Typed T ok ∧ q.Follows (q.returned v rest m') := by
  obtain ⟨i, m₁, hdoes, _⟩ := id henters
  obtain ⟨rfl, _⟩ := (Run.Step.of_execute hdoes.2).effect q.place
  have hnext := List.mem_singleton_self (q.place + 1)
  obtain rfl := hleaves.machine_eq
  obtain ⟨rfl, rfl⟩ := henters.opened
  have hgrows := Store.grows_newFrame q.machine.store ⟨.empty, some c.frame, some c⟩
    ((c.template.parameters.zip arguments).map fun p => (p.1, some p.2))
  have hlater : q.Follows (q.returned v rest last.machine) := by
    refine ⟨rfl, rfl, Nat.le_trans hgrows.size hfollows.size, fun j hj => ?_⟩
    exact (hfollows.running j (Nat.lt_of_lt_of_le hj hgrows.size)).trans (hgrows.running j hj)
  obtain ⟨around, hbody⟩ := h.body
  obtain ⟨hle, _⟩ := h.does hT hhost hreached hbody hdoes hnext
  refine ⟨⟨h.body, fun around hbody => ?_, hle, Nat.lt_of_lt_of_le h.made hlater.size, fun d hd => ?_, ?_⟩, hlater⟩
  · obtain ⟨_, _, operands, hstacks, signature, tys, htys, hcallee, _, hrest⟩ :=
      h.does hT hhost hreached hbody hdoes hnext
    refine ⟨operands, hstacks, ?_⟩
    change List.Forall₂ T.Has (operands (q.place + 1)) (v :: rest)
    rw [htys]
    exact .cons (hlast.gives hT hreachedLast (hfollows.template ▸ hcallee) hleaves) hrest
  · exact h.running d ((hlater.running q.frame h.made).symm.trans hd)
  · exact ⟨hlast.machine.cells, hlast.machine.exports, hlast.machine.memory⟩

end Typed

end Moment

/-- every step of a run keeps types, where no way leads to the end of a function that is declared to give something -/
theorem typed_lasting (hT : T.Hold) (hhost : host.Answers T ok) :
    Lasting host (fun q => q.Reached) (fun _ q => q.Typed T ok) Moment.Follows where
  refl := .refl
  trans := .trans
  next {depth q i stack m} hreached h hdoes := by
    obtain ⟨hnext, _⟩ := (Run.Step.of_execute hdoes.2).effect q.place
    exact h.onward hT hhost hreached hdoes hnext fun _ hstack => hstack
  jump {depth q i target stack m} hreached h hdoes := by
    obtain ⟨rfl, _⟩ := (Run.Step.of_execute hdoes.2).effect q.place
    exact h.onward hT hhost hreached hdoes (List.mem_cons_of_mem _ (List.mem_singleton_self target))
      fun _ hstack => hstack
  enter hreached h henters := h.enter hT hhost hreached henters
  back hreached h henters hreachedLast hlast hfollows hleaves :=
    h.back hT hhost hreached henters hlast hreachedLast hfollows hleaves

end TypedScript
