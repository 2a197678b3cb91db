/-
What holds throughout the direct evaluation of a typed program (`Invariant`): each cell that has a value has one of its
type, and each function around can be called, because what it uses from around it has a value in the frame over which it
was made (`Valid`). A part of an evaluation is safe if it keeps to that and comes to no other faults than those that
types do not exclude (`RuntimeFault.Allowed`).

- `safe_assign`: a variable in reach gets a value of its type.
- `safe_openCall`: the frame of a call is as the body of the function wants it.
-/
import TypedScript.Proofs.Direct.Discipline
import TypedScript.Proofs.Direct.HasType

namespace TypedScript

/-- the faults that types do not exclude -/
def RuntimeFault.Allowed : RuntimeFault → Prop
  | .divisionByZero => True
  | .callDepthExceeded _ => True
  | .host _ _ => True
  | _ => False

namespace Direct

variable {σ α β : Type} {types : Nat → Option Ty} {known : Builtin → Prop}
  {holds : σ → List (Closure Bound.Function)} {ok : σ → Prop} {host : Host σ} {s s' s'' : State σ}
  {frame : FrameId} {ty : Ty} {v : Val} {around : Option Signature} {locals ready : List Cell}

/-! ## Values in a store -/

/-- what a function uses from around it has a value in the frame over which it was made -/
def Valid (types : Nat → Option Ty) (s : Store Bound.Function) (c : Closure Bound.Function) : Prop :=
  c.frame < s.frames.size ∧
    ∃ ready, Bound.TypedFunction types ready c.template ∧ ∀ cell ∈ ready, s.Initialised c.frame cell.id

theorem Valid.grows {s s' : Store Bound.Function} {c : Closure Bound.Function} (h : Valid types s c)
    (hgrows : s.Grows s') : Valid types s' c := by
  obtain ⟨hframe, ready, htyped, hready⟩ := h
  refine ⟨Nat.lt_of_lt_of_le hframe hgrows.size, ready, htyped, fun cell hcell => ?_⟩
  exact hgrows.initialised hframe (hready cell hcell)

/-- a value of a type whose functions can be called -/
structure Good (types : Nat → Option Ty) (known : Builtin → Prop) (s : Store Bound.Function) (ty : Ty) (v : Val) :
    Prop where
  type : HasType types known ty v
  valid : ∀ c ∈ v.closures, Valid types s c

theorem Good.grows {s s' : Store Bound.Function} (h : Good types known s ty v) (hgrows : s.Grows s') :
    Good types known s' ty v :=
  ⟨h.type, fun c hc => (h.valid c hc).grows hgrows⟩

theorem good_of_closures_nil {s : Store Bound.Function} (h : HasType types known ty v) (hnil : v.closures = []) :
    Good types known s ty v := by
  refine ⟨h, fun c hc => ?_⟩
  rw [hnil] at hc
  cases hc

theorem forall₂_type {s : Store Bound.Function} {tys : List Ty} {vs : List Val}
    (h : List.Forall₂ (Good types known s) tys vs) : List.Forall₂ (HasType types known) tys vs :=
  h.imp fun _ _ h => h.type

theorem forall₂_valid {s : Store Bound.Function} {tys : List Ty} {vs : List Val}
    (h : List.Forall₂ (Good types known s) tys vs) : ∀ c ∈ Value.closuresOf vs, Valid types s c := by
  induction h with
  | nil => exact fun _ h => nomatch h
  | cons head _ ih =>
    intro c hc
    rcases List.mem_append.1 hc with hc | hc
    · exact head.valid c hc
    · exact ih c hc

/-- variables have values of their types, and functions can be called -/
def typing (types : Nat → Option Ty) (known : Builtin → Prop) : Discipline where
  valid := Valid types
  good store id v := ∃ ty, types id = some ty ∧ Good types known store ty v
  valid_grows := Valid.grows
  good_grows := fun ⟨ty, htype, hgood⟩ hgrows => ⟨ty, htype, hgood.grows hgrows⟩

/-! ## Frames -/

/-- a frame is as a body wants it: its function has the signature, its own variables have their cells, and the variables
that are ready have a value -/
structure InFrame (s : Store Bound.Function) (frame : FrameId) (around : Option Signature)
    (locals ready : List Cell) : Prop where
  inside : frame < s.frames.size
  around : ∀ signature, around = some signature → ∃ c, s.running? frame = some c ∧ c.template.signature = signature
  locals : ∀ cell ∈ locals, (s.slot? frame cell.id).isSome = true
  ready : ∀ cell ∈ ready, s.Initialised frame cell.id

theorem InFrame.grows {s s' : Store Bound.Function} (h : InFrame s frame around locals ready) (hgrows : s.Grows s') :
    InFrame s' frame around locals ready := by
  refine ⟨Nat.lt_of_lt_of_le h.inside hgrows.size, fun signature hsignature => ?_, fun cell hcell => ?_,
    fun cell hcell => hgrows.initialised h.inside (h.ready cell hcell)⟩
  · rw [hgrows.running frame h.inside]
    exact h.around signature hsignature
  · rw [hgrows.slots frame h.inside]
    exact h.locals cell hcell

theorem InFrame.more {s : Store Bound.Function} {cells : List Cell} (h : InFrame s frame around locals ready)
    (hcells : ∀ cell ∈ cells, s.Initialised frame cell.id) : InFrame s frame around locals (cells ++ ready) := by
  refine ⟨h.inside, h.around, h.locals, fun cell hcell => ?_⟩
  rcases List.mem_append.1 hcell with hcell | hcell
  · exact hcells cell hcell
  · exact h.ready cell hcell

/-! ## Safe parts -/

/-- a part of an evaluation ends as `k` says or with a fault that types do not exclude -/
abbrev Safe (x : Eval σ α) (s : State σ) (k : α → State σ → Prop) : Prop := Ends RuntimeFault.Allowed x s k

/-- a variable with a value is read -/
theorem safe_load (hinv : Invariant (typing types known) holds ok s) {cell : Cell}
    (hready : s.store.Initialised frame cell.id) (htype : types cell.id = some ty) :
    Safe (load frame cell) s fun v s' => s' = s ∧ Good types known s.store ty v := by
  obtain ⟨holder, v, hslot, hload⟩ := hready.load
  obtain ⟨ty', hty', hgood⟩ := hinv.slots holder cell.id v hslot
  rw [htype] at hty'
  obtain rfl := Option.some.inj hty'
  unfold load
  refine ends_get ?_
  rw [hload]
  exact ⟨rfl, hgood⟩

/-- a variable in reach gets a value of its type -/
theorem safe_assign (hinv : Invariant (typing types known) holds ok s) {cell : Cell} {holder : FrameId}
    (hholder : s.store.holder? frame cell.id = some holder) (htype : types cell.id = some ty)
    (hgood : Good types known s.store ty v) :
    Safe (assign frame cell v) s fun _ s' =>
      Keeps (typing types known) holds ok s s' ∧ s'.store.slot? holder cell.id = some (some v) :=
  ends_assign hinv hholder ⟨ty, htype, hgood⟩

/-- a literal becomes a function over the frame -/
theorem safe_makeFunction (hinv : Invariant (typing types known) holds ok s) {f : Bound.Function}
    (hin : InFrame s.store frame around locals ready) (hf : Bound.TypedFunction types ready f) :
    Safe (makeFunction frame f) s fun v s' =>
      Keeps (typing types known) holds ok s s' ∧ Good types known s'.store f.signature.ty v := by
  have hkeeps := hinv.newClosure f frame
  refine ⟨hkeeps, Or.inl ⟨_, ready, rfl, rfl, hf⟩, fun c hc => ?_⟩
  obtain rfl := List.mem_singleton.1 hc
  exact ⟨hin.inside, ready, hf, fun cell hcell => hkeeps.grows.initialised hin.inside (hin.ready cell hcell)⟩

/-- a host whose functions keep to their types as long as what it remembers is `ok`, as its functions leave it, and
which makes no functions of its own -/
structure Host.Sound (types : Nat → Option Ty) (known : Builtin → Prop) (holds : σ → List (Closure Bound.Function))
    (ok : σ → Prop) (host : Host σ) : Prop extends host.Conserves holds where
  typed : ∀ b, known b → ∀ arguments memory, ok memory →
    List.Forall₂ (HasType types known) b.signature.params arguments → ok (host.respond b.id arguments memory).2 ∧
      ∀ v, (host.respond b.id arguments memory).1 = .ok v → HasType types known b.signature.result v

theorem safe_ask (hhost : host.Sound types known holds ok) (hinv : Invariant (typing types known) holds ok s)
    {b : Builtin} (hb : known b) {arguments : List Val}
    (harguments : List.Forall₂ (Good types known s.store) b.signature.params arguments) :
    Safe (ask host b arguments) s fun v s' =>
      Keeps (typing types known) holds ok s s' ∧ Good types known s'.store b.signature.result v := by
  obtain ⟨hkept, htyped⟩ := hhost.typed b hb arguments s.memory hinv.kept (forall₂_type harguments)
  refine (ends_ask hhost.toConserves hinv (forall₂_valid harguments) hkept fun _ => trivial).imp fun v s' hanswer => ?_
  exact ⟨hanswer.1, htyped v hanswer.2.1, hanswer.2.2⟩

/-! ## Frames of calls -/

theorem good_of_zip {s : Store Bound.Function} {cells : List Cell} {tys : List Ty} {vs : List Val} {cell : Cell}
    (hcells : List.Forall₂ (fun cell ty => types cell.id = some ty) cells tys)
    (hvs : List.Forall₂ (Good types known s) tys vs) (h : (cell, v) ∈ cells.zip vs) :
    ∃ ty, types cell.id = some ty ∧ Good types known s ty v := by
  induction hcells generalizing vs with
  | nil => cases h
  | cons htype _ ih =>
    cases hvs with
    | cons hgood hrest =>
      rcases List.mem_cons.1 h with heq | h
      · cases heq
        exact ⟨_, htype, hgood⟩
      · exact ih hrest h

/-- the frame of a call has the arguments under the parameters, empty cells for the variables of the body, and reaches
what the function may use from around it -/
theorem safe_openCall (hinv : Invariant (typing types known) holds ok s)
    {c : Closure Bound.Function} {arguments : List Val}
    (hframe : c.frame < s.store.frames.size) (htyped : Bound.TypedFunction types ready c.template)
    (hready : ∀ cell ∈ ready, s.store.Initialised c.frame cell.id)
    (harguments : List.Forall₂ (Good types known s.store) c.template.signature.params arguments) :
    Safe (openCall c arguments) s fun frame s' => Keeps (typing types known) holds ok s s' ∧
      InFrame s'.store frame (some c.template.signature) c.template.locals (c.template.params ++ ready) := by
  have hvalid : Valid types s.store c := ⟨hframe, ready, htyped, hready⟩
  cases htyped with
  | mk params apart new _ _ =>
    let fr : Frame Bound.Function := ⟨.empty, some c.frame, some c⟩
    have hlength : c.template.params.length = arguments.length := params.length_eq.trans harguments.length_eq
    have hkeeps := @Invariant.newFrame _ _ _ _ _ hinv fr (slots c.template arguments) rfl
      (fun _ h => by cases h; exact hvalid) fun cell v hmem => by
        rcases mem_slots hmem with ⟨w, hw, hzip⟩ | ⟨hnone, _⟩
        · cases hw
          exact good_of_zip params harguments hzip
        · cases hnone
    refine ⟨hkeeps, ?_, fun signature hsignature => ?_, fun cell hcell => ?_, fun cell hcell => ?_⟩
    · rw [Store.size_fill]
      simp [Store.newCall, Store.add]
    · cases hsignature
      exact ⟨c, Store.running?_newFrame, rfl⟩
    · refine Store.isSome_newFrame ⟨(cell, none), ?_, rfl⟩
      exact List.mem_append_right _ (List.mem_map_of_mem hcell)
    rcases List.mem_append.1 hcell with hcell | hcell
    · obtain ⟨i, hi, rfl⟩ := List.getElem_of_mem hcell
      have hzip : (c.template.params[i], some arguments[i]) ∈ slots c.template arguments := by
        refine List.mem_append_left _ (List.mem_map.2 ⟨(c.template.params[i], arguments[i]), ?_, rfl⟩)
        exact List.mem_iff_getElem.2 ⟨i, by rw [List.length_zip]; omega, List.getElem_zip⟩
      obtain ⟨content, hcontent⟩ := Option.isSome_iff_exists.1
        (@Store.isSome_newFrame _ s.store _ fr _ ⟨_, hzip, rfl⟩)
      rcases @Store.slot?_newFrame _ _ _ _ _ fr _ rfl hcontent with ⟨_, other, hmem, hother⟩ | hold
      · rcases mem_slots hmem with ⟨w, rfl, _⟩ | ⟨_, hlocal⟩
        · exact Store.initialised_of_slot? hcontent
        · exact absurd hother.symm (apart other hlocal _ (List.mem_append_left _ hcell))
      · exact absurd (Store.lt_of_slot? hold) (Nat.lt_irrefl _)
    · refine @Store.initialised_newFrame _ _ _ fr _ rfl _ rfl hframe (hready cell hcell) fun slot hslot heq => ?_
      rcases mem_slots hslot with ⟨w, _, hzip⟩ | ⟨_, hlocal⟩
      · exact new slot.1 (List.of_mem_zip hzip).1 cell hcell heq.symm
      · exact apart slot.1 hlocal cell (List.mem_append_right _ hcell) heq.symm

/-- the frame of a module's body has empty cells for the variables of the body -/
theorem safe_openModule (hinv : Invariant (typing types known) holds ok s) (body : Bound.Function) :
    Safe (openModule body) s fun frame s' =>
      Keeps (typing types known) holds ok s s' ∧ InFrame s'.store frame none body.locals [] := by
  have hslots (cell : Cell) (content : Option Val) (h : (cell, content) ∈ slots body []) :
      content = none ∧ cell ∈ body.locals := by
    rcases mem_slots h with ⟨v, _, hzip⟩ | hlocal
    · rw [List.zip_nil_right] at hzip
      cases hzip
    · exact hlocal
  have hkeeps := @Invariant.newFrame _ _ _ _ _ hinv ⟨.empty, none, none⟩ (slots body []) rfl (fun _ h => nomatch h)
    fun cell v hmem => nomatch (hslots cell _ hmem).1
  refine ⟨hkeeps, ?_, (fun _ h => nomatch h), fun cell hcell => ?_, fun _ h => nomatch h⟩
  · rw [Store.size_fill]
    simp [Store.newRoot, Store.add]
  · refine Store.isSome_newFrame ⟨(cell, none), ?_, rfl⟩
    exact List.mem_append_right _ (List.mem_map_of_mem hcell)

end Direct

end TypedScript
