/-
What the pieces of a check do. A check at a place that is `Ready` leaves it ready and takes a `Step`: only the scope of
the place and the global scope of the module change, and only the literals that were checked get a scope. `Sound` says
this of a piece of checking, and what its result is as long as the module stays clean. A piece is quiet where all it
does is to report: in a clean module it changes nothing.

- `Sound.bind`: a piece and then another.
- `quiet_binary`, `quiet_call` and so on: whatever only asks whether types fit is quiet.
- `sound_params`, `sound_imports`: parameters and imported names get a cell each.
-/
import TypedScript.Proofs.Typing.Accepts
import TypedScript.Proofs.Typing.Arena.Moves

namespace TypedScript

namespace Check

variable {α β : Type} {p : Place} {ids ids' : List Nat} {r r' r'' : Record}

/-! ## Places and steps -/

/-- the place is in a scope of its module -/
structure Ready (p : Place) (r : Record) : Prop where
  wellFormed : r.arena.WellFormed
  scope : p.scope < r.arena.scopes.size
  root : r.arena.root p.scope = p.global
  global : r.arena.isGlobal p.global = true

/-- what a check at a place does; `ids` are the numbers of the literals that were checked -/
structure Step (p : Place) (ids : List Nat) (r r' : Record) : Prop where
  moves : Arena.Moves p.scope p.global r.arena.scopes.size r.arena r'.arena
  functions : ∀ id, id ∉ ids → r'.functions.find? id = r.functions.find? id

/-- nothing was found wrong with the module -/
def Clean (p : Place) (r : Record) : Prop := r.arena.diagnostics p.global = []

theorem Ready.later (h : Ready p r) (hw : r'.arena.WellFormed) (hl : r.arena.Later r'.arena) : Ready p r' := by
  refine ⟨hw, Nat.lt_of_lt_of_le h.scope hl.size, ?_, hl.isGlobal_of h.global⟩
  rw [hl.root hw.ordered h.scope, h.root]

theorem Ready.step (h : Ready p r) (hs : Step p ids r r') : Ready p r' :=
  h.later hs.moves.wellFormed hs.moves.later

theorem Ready.clean (h : Ready p r) (hw : r'.arena.WellFormed) (hl : r.arena.Later r'.arena) (hc : Clean p r') :
    Clean p r :=
  hl.clean hw.ordered h.global hc

theorem Step.refl (h : Ready p r) : Step p [] r r := ⟨.refl h.wellFormed, fun _ _ => rfl⟩

theorem Step.trans (h : Step p ids r r') (h' : Step p ids' r' r'') : Step p (ids ++ ids') r r'' := by
  refine ⟨h.moves.trans (h'.moves.weaken h.moves.later.size (Or.inl rfl)), fun id hid => ?_⟩
  simp only [List.mem_append, not_or] at hid
  rw [h'.functions id hid.2, h.functions id hid.1]

theorem Step.widen (h : Step p ids r r') (hids : ∀ id ∈ ids, id ∈ ids') : Step p ids' r r' :=
  ⟨h.moves, fun id hid => h.functions id fun h' => hid (hids id h')⟩

/-- a step in an arena alone -/
theorem step_of_moves {arena : Arena} (h : Arena.Moves p.scope p.global r.arena.scopes.size r.arena arena) :
    Step p [] r { r with arena } :=
  ⟨h, fun _ _ => rfl⟩

/-! ## Sound pieces -/

/-- a piece of checking takes a step, and in a clean module its result is as `Q` says, as long as `K` holds -/
def Sound (K : Prop) (p : Place) (ids : List Nat) (x : Check α) (r : Record) (Q : α → Record → Prop) : Prop :=
  Ready p r → Step p ids r (x r).2 ∧ (K → Clean p (x r).2 → Q (x r).1 (x r).2)

variable {K : Prop} {x : Check α} {P Q : α → Record → Prop}

theorem Sound.pure {a : α} (h : Q a r) : Sound K p [] (pure a : Check α) r Q :=
  fun hr => ⟨.refl hr, fun _ _ => h⟩

theorem Sound.bind {f : α → Check β} {Q : β → Record → Prop} (hx : Sound K p ids x r P)
    (hf : ∀ a r', x r = (a, r') → Ready p r' → Sound K p ids' (f a) r' fun b r'' => P a r' → Q b r'') :
    Sound K p (ids ++ ids') (x >>= f) r Q := by
  intro hr
  obtain ⟨hs, hq⟩ := hx hr
  have hr' := hr.step hs
  obtain ⟨hs', hq'⟩ := hf (x r).1 (x r).2 rfl hr' hr'
  refine ⟨hs.trans hs', fun hk hc => hq' hk hc (hq hk ?_)⟩
  exact hr'.clean hs'.moves.wellFormed hs'.moves.later hc

theorem Sound.mono (hx : Sound K p ids x r P) (h : ∀ a r', x r = (a, r') → P a r' → Q a r') : Sound K p ids x r Q :=
  fun hr => ⟨(hx hr).1, fun hk hc => h _ _ rfl ((hx hr).2 hk hc)⟩

theorem Sound.widen (hx : Sound K p ids x r Q) (h : ∀ id ∈ ids, id ∈ ids') : Sound K p ids' x r Q :=
  fun hr => ⟨(hx hr).1.widen h, (hx hr).2⟩

/-- a piece, and then one that checks no literals -/
theorem Sound.bind_leaf {f : α → Check β} {Q : β → Record → Prop} (hx : Sound K p ids x r P)
    (hf : ∀ a r', x r = (a, r') → Ready p r' → Sound K p [] (f a) r' fun b r'' => P a r' → Q b r'') :
    Sound K p ids (x >>= f) r Q :=
  (hx.bind hf).widen (by simp)

/-- what all that has been built is asked for -/
theorem Sound.get_bind {f : Record → Check β} {Q : β → Record → Prop} (h : Sound K p ids (f r) r Q) :
    Sound K p ids (get >>= f) r Q := h

theorem sound_report (position : Position) (text : String) {Q : Unit → Record → Prop} :
    Sound K p [] (report p position text) r Q := by
  intro hr
  refine ⟨step_of_moves (Arena.moves_report hr.wellFormed hr.root position text), fun _ hc => ?_⟩
  exact absurd hc (Arena.report_unclean hr.wellFormed hr.root hr.global position text)

theorem sound_refuse (position : Position) (text : String) {Q : Ty → Record → Prop} :
    Sound K p [] (refuse p position text) r Q :=
  (sound_report position text (Q := fun _ _ => False)).bind fun _ _ _ _ => .pure (False.elim ·)

/-! ## Quiet pieces -/

/-- in a clean module, nothing changes -/
def Quiet (K : Prop) (p : Place) (x : Check α) : Prop := ∀ r, Sound K p [] x r fun _ r' => r' = r

theorem quiet_pure (a : α) : Quiet K p (pure a) := fun _ => .pure rfl

theorem quiet_report (position : Position) (text : String) : Quiet K p (report p position text) :=
  fun _ => sound_report position text

theorem quiet_refuse (position : Position) (text : String) : Quiet K p (refuse p position text) :=
  fun _ => sound_refuse position text

theorem Quiet.bind {f : α → Check β} (hx : Quiet K p x) (hf : ∀ a, Quiet K p (f a)) : Quiet K p (x >>= f) := by
  intro r
  refine (hx r).bind fun a r' _ _ => (hf a r').mono fun b r'' _ h h' => ?_
  rw [h, h']

theorem quiet_get_bind {f : Record → Check β} (h : ∀ r, Quiet K p (f r)) : Quiet K p (get >>= f) := fun r => h r r

/-- a quiet piece gives its result and leaves what has been built as it is -/
theorem Quiet.sound (hx : Quiet K p x) (r : Record) : Sound K p [] x r fun a r' => r' = r ∧ x r = (a, r) := by
  refine (hx r).mono fun a r' hrun h => ⟨h, ?_⟩
  rw [hrun, h]

theorem quiet_binary (operator : String) (left right : Ty) (span : Span) :
    Quiet K p (binary p operator left right span) := by
  unfold binary
  split
  · exact quiet_pure _
  split
  · exact quiet_pure _
  · exact quiet_refuse _ _
  · exact quiet_refuse _ _

theorem quiet_subscript (target index : Ty) (indexSpan span : Span) :
    Quiet K p (subscript p target index indexSpan span) := by
  unfold subscript
  split
  · exact quiet_pure _
  split
  · split
    · exact quiet_pure _
    · exact quiet_refuse _ _
  · split
    · exact quiet_pure _
    · exact quiet_refuse _ _

theorem quiet_compareArguments (index : Nat) (params : List Ty) (arguments : List (Ty × Span)) :
    Quiet K p (compareArguments p index params arguments) := by
  induction params generalizing index arguments with
  | nil => exact quiet_pure _
  | cons expected params ih =>
    cases arguments with
    | nil => exact quiet_pure _
    | cons argument arguments =>
      obtain ⟨received, span⟩ := argument
      unfold compareArguments
      dsimp only
      split
      · exact (quiet_report _ _).bind fun _ => ih (index + 1) arguments
      · exact ih (index + 1) arguments

theorem quiet_call (callee : Ty) (arguments : List (Ty × Span)) (span : Span) :
    Quiet K p (call p callee arguments span) := by
  unfold call
  split
  · exact quiet_pure _
  · exact quiet_pure _
  · split
    · exact quiet_refuse _ _
    · exact (quiet_compareArguments _ _ _).bind fun _ => quiet_pure _
  · exact quiet_refuse _ _

theorem quiet_giveBack (value : Option (Ty × Span)) (span : Span) : Quiet K p (giveBack p value span) := by
  unfold giveBack
  refine quiet_get_bind fun r => ?_
  split
  · exact quiet_report _ _
  dsimp only
  split
  · split
    · exact quiet_report _ _
    · exact quiet_pure _
  · split
    · exact quiet_pure _
    split
    · exact quiet_report _ _
    split
    · exact quiet_report _ _
    · exact quiet_pure _

theorem quiet_importedNames (path : String) (dependency : ScopeId) (span : Span) (names : List String) :
    Quiet K p (importedNames p path dependency span names) := by
  induction names with
  | nil => exact quiet_pure _
  | cons name names ih =>
    unfold importedNames
    refine quiet_get_bind fun r => ?_
    split
    · exact ih.bind fun _ => quiet_pure _
    · exact (quiet_report _ _).bind fun _ => ih

/-! ## Pieces that ask for names -/

theorem sound_ident (name : String) (span : Span) :
    Sound K p [] (ident p name span) r fun ty r' => r' = r ∧
    ∃ v, r.arena.lookup? p.scope name = some v ∧ v.ty = ty := by
  unfold ident
  refine Sound.get_bind ?_
  split
  · next v hv => exact .pure ⟨rfl, v, hv, rfl⟩
  · exact sound_refuse _ _

theorem sound_selfReference (span : Span) :
    Sound K p [] (selfReference p span) r fun ty r' =>
      r' = r ∧ ∃ signature, r.arena.signature? p.scope = some signature ∧ signature.ty = ty := by
  unfold selfReference
  refine Sound.get_bind ?_
  split
  · next signature hs => exact .pure ⟨rfl, signature, hs, rfl⟩
  · exact sound_refuse _ _

theorem sound_asValue (span : Span) (ty : Ty) :
    Sound K p [] (asValue p span ty) r fun ty' r' => r' = r ∧ ty' = ty ∧ ty.isVoid = false := by
  unfold asValue
  split
  · exact sound_refuse _ _
  · next h => exact .pure ⟨rfl, rfl, by simpa using h⟩

theorem sound_assign (target : Expr) (value : Ty) (valueSpan : Span) :
    Sound K p [] (assign p target value valueSpan) r fun ty r' =>
      r' = r ∧ ty = .void ∧ ∃ name span v, target = .ident name span ∧ r.arena.lookup? p.scope name = some v ∧
        (value.isError || v.ty.isError || v.ty.equals value) = true := by
  unfold assign
  split
  · next name span =>
    refine Sound.get_bind ?_
    split
    · exact sound_refuse _ _
    · next v hv =>
      dsimp only
      split
      · exact (sound_report _ _ (Q := fun _ _ => False)).bind fun _ _ _ _ => .pure (False.elim ·)
      · next h =>
        refine .pure ⟨rfl, rfl, name, span, v, rfl, hv, ?_⟩
        cases hvalue : value.isError <;> cases hty : v.ty.isError <;> simp_all
  · exact sound_refuse _ _

/-- an operator, which the machine knows -/
theorem sound_operator {operator : String} (hop : K → ∃ op, BinaryOp.ofText? operator = some op) (left right : Ty)
    (span : Span) :
    Sound K p [] (binary p operator left right span) r fun ty r' =>
      r' = r ∧ binary p operator left right span r = (ty, r) ∧ ∃ op, BinaryOp.ofText? operator = some op := by
  intro hr
  obtain ⟨hs, hq⟩ := (quiet_binary operator left right span).sound r hr
  exact ⟨hs, fun hk hc => ⟨(hq hk hc).1, (hq hk hc).2, hop hk⟩⟩

theorem sound_importedNames (path : String) (dependency : ScopeId) (span : Span) (names : List String) :
    Sound K p [] (importedNames p path dependency span names) r fun found r' =>
      r' = r ∧ found = (importedNames p path dependency span names r).1 ∧
        ∀ name ∈ names, (r.arena.export? dependency name).isSome = true := by
  induction names with
  | nil => exact .pure ⟨rfl, rfl, fun _ h => nomatch h⟩
  | cons name names ih =>
    have hstep : Sound K p [] (importedNames p path dependency span (name :: names)) r fun _ r' =>
        r' = r ∧ ∀ name' ∈ name :: names, (r.arena.export? dependency name').isSome = true := by
      unfold importedNames
      refine Sound.get_bind ?_
      split
      · next ty hty =>
        refine ih.bind fun found r' _ _ => .pure fun h => ⟨h.1, fun name' hname => ?_⟩
        rcases List.mem_cons.1 hname with rfl | hname
        · rw [hty]; rfl
        · exact h.2.2 name' hname
      · exact (sound_report _ _ (Q := fun _ _ => False)).bind fun _ r' _ _ =>
          (quiet_importedNames path dependency span names r').mono fun _ _ _ _ h => h.elim
    refine hstep.mono fun found r' hrun h => ⟨h.1, ?_, h.2⟩
    rw [hrun]

/-! ## Pieces that declare -/

theorem sound_newVariable {scope : ScopeId} (hscope : scope = p.scope ∨ scope = p.global) (name : String) (ty : Ty)
    (position : Position) :
    Sound K p [] (newVariable scope name ty position) r fun cell r' =>
      ∃ c, cell = some c ∧ newVariable scope name ty position r = (some c, r') := by
  intro hr
  have hroot : r.arena.root scope = p.global := by
    rcases hscope with rfl | rfl
    · exact hr.root
    · exact Arena.root_of_isGlobal hr.wellFormed.ordered hr.global
  refine ⟨step_of_moves (Arena.moves_newVariable hr.wellFormed hroot (hscope.imp id Or.inl) name ty position), ?_⟩
  intro _ hc
  cases h : r.arena.hasVariable scope name with
  | true =>
    change (r.arena.newVariable scope name ty position).2.diagnostics p.global = [] at hc
    rw [Arena.newVariable_of_hasVariable h] at hc
    exact absurd hc (Arena.report_unclean hr.wellFormed hroot hr.global _ _)
  | false =>
    have hcell : (newVariable scope name ty position r).1 = some ⟨r.arena.nextCell, name⟩ := by
      change (r.arena.newVariable scope name ty position).1 = _
      rw [Arena.newVariable_of_not_hasVariable h]
    exact ⟨_, hcell, Prod.ext hcell rfl⟩

theorem sound_imports (span : Span) (names : List (String × Ty)) :
    Sound K p [] (declareImported p span names) r fun _ r' => ∃ cells, AcceptsImports p span r names cells r' := by
  induction names generalizing r with
  | nil => exact .pure ⟨[], .nil⟩
  | cons name names ih =>
    obtain ⟨name, ty⟩ := name
    refine (sound_newVariable (Or.inr rfl) name ty span.start).bind fun cell r' _ _ => ?_
    refine ih.mono fun _ r'' _ hrest hcell => ?_
    obtain ⟨cells, hrest⟩ := hrest
    obtain ⟨c, -, hc⟩ := hcell
    exact ⟨(name, c) :: cells, .cons hc hrest⟩

theorem sound_addExport {name : String} {ty : Ty}
    (hv : ∀ s, r.arena.get? p.scope = some s → ∃ v, s.find? name = some v ∧ v.ty = ty) (position : Position) :
    Sound K p [] (addExport p.scope name ty position) r fun added r' =>
      added = true ∧ addExport p.scope name ty position r = (true, r') := by
  intro hr
  refine ⟨step_of_moves (Arena.moves_addExport hr.wellFormed hr.root (Or.inl rfl) hv position), fun _ hc => ?_⟩
  have hunclean := fun text => Arena.report_unclean hr.wellFormed hr.root hr.global position text
  have hadded : (addExport p.scope name ty position r).1 = true := by
    change (r.arena.addExport p.scope name ty position).2.diagnostics p.global = [] at hc
    change (r.arena.addExport p.scope name ty position).1 = true
    unfold Arena.addExport at hc ⊢
    split at hc
    · exact absurd hc (hunclean _)
    split at hc
    · exact absurd hc (hunclean _)
    · next hold hglobal => rw [if_neg hold, if_neg hglobal]
  exact ⟨hadded, Prod.ext hadded rfl⟩

/-- a parameter is declared, or the module becomes unclean -/
theorem newParameter_clean {scope : ScopeId} (hw : r.arena.WellFormed) (hroot : r.arena.root scope = p.global)
    (hglobal : r.arena.isGlobal p.global = true) (name : String) (ty : Ty) (position : Position)
    (hc : Clean p (newParameter scope name ty position r).2) :
    ∃ cell, newParameter scope name ty position r = (some cell, (newParameter scope name ty position r).2) := by
  cases h : r.arena.hasVariable scope name with
  | true =>
    change (r.arena.newParameter scope name ty position).2.diagnostics p.global = [] at hc
    rw [Arena.newParameter_eq, if_pos h] at hc
    exact absurd hc (Arena.report_unclean hw hroot hglobal _ _)
  | false =>
    refine ⟨⟨r.arena.nextCell, name⟩, Prod.ext ?_ rfl⟩
    change (r.arena.newParameter scope name ty position).1 = _
    rw [Arena.newParameter_eq, if_neg (by simp [h])]

/-- the parameters of a literal whose scope is not among the first `base` ones -/
theorem sound_params {base : Nat} {scope : ScopeId} (hbase : base ≤ scope) (params : List Parameter)
    (hw : r.arena.WellFormed) (hscope : scope < r.arena.scopes.size) (hroot : r.arena.root scope = p.global)
    (hglobal : r.arena.isGlobal p.global = true) :
    Arena.Moves p.scope p.global base r.arena (past (declareParams scope params) r).arena ∧
      (past (declareParams scope params) r).functions = r.functions ∧
      (Clean p (past (declareParams scope params) r) →
        ∃ cells, AcceptsParams scope r params cells (past (declareParams scope params) r)) := by
  induction params generalizing r with
  | nil => exact ⟨.refl hw, rfl, fun _ => ⟨[], .nil⟩⟩
  | cons param params ih =>
    have hmove : Arena.Moves p.scope p.global base r.arena
        (newParameter scope param.name (.ofNote param.note) param.span.start r).2.arena :=
      Arena.moves_newParameter hw hroot hbase _ _ _
    obtain ⟨hmoves, hfunctions, hparams⟩ := ih hmove.wellFormed (Nat.lt_of_lt_of_le hscope hmove.later.size)
      ((hmove.later.root hmove.wellFormed.ordered hscope).trans hroot) (hmove.later.isGlobal_of hglobal)
    refine ⟨hmove.trans hmoves, hfunctions, fun hc => ?_⟩
    obtain ⟨cells, hrest⟩ := hparams hc
    have hc' := hmoves.later.clean hmoves.wellFormed.ordered (hmove.later.isGlobal_of hglobal) hc
    obtain ⟨cell, hcell⟩ := newParameter_clean hw hroot hglobal _ _ _ hc'
    exact ⟨cell :: cells, .cons hcell hrest⟩

end Check

end TypedScript
