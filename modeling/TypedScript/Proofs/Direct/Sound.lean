/-
Typed trees are safe to evaluate. An expression that the rules of typed trees give a type comes to a value of the type;
a statement gives back a value of the type that the function around it gives, or leaves the variables that it is sure to
assign with a value; and a call of a function gives what its signature says. None of them comes to a fault that types
exclude.

- `safe_expr`, `safe_stmt`: expressions and statements, where calls are safe.
- `safe_invoke`: calls are safe, however many may be open.
-/
import TypedScript.Proofs.Direct.Invariant

namespace TypedScript

namespace Direct

open TypedScript.Bound (TypedExpr TypedExprs TypedStmt TypedStmts TypedFunction)

variable {σ : Type} {types : Nat → Option Ty} {known : Builtin → Prop} {holds : σ → List (Closure Bound.Function)}
  {ok : σ → Prop} {host : Host σ} {call : Closure Bound.Function → List Val → Eval σ Val} {frame : FrameId}

/-- a call of a function with arguments of its parameters' types is safe -/
def SoundCalls (types : Nat → Option Ty) (known : Builtin → Prop) (holds : σ → List (Closure Bound.Function))
    (ok : σ → Prop) (call : Closure Bound.Function → List Val → Eval σ Val) : Prop :=
  ∀ (c : Closure Bound.Function) (arguments : List Val) (s : State σ), Invariant (typing types known) holds ok s →
    Valid types s.store c → List.Forall₂ (Good types known s.store) c.template.signature.params arguments →
    Safe (call c arguments) s fun v s' =>
      Keeps (typing types known) holds ok s s' ∧ Good types known s'.store c.template.signature.result v

/-! ## Expressions -/

/-- a call of a value of a function type -/
theorem safe_apply (hhost : host.Sound types known holds ok)
    (hcall : SoundCalls types known holds ok call) {s : State σ}
    (hinv : Invariant (typing types known) holds ok s) {callee : Val} {params : List Ty} {result : Ty}
    (hcallee : Good types known s.store (.function params result) callee) {arguments : List Val}
    (harguments : List.Forall₂ (Good types known s.store) params arguments) :
    Safe (apply host call callee arguments) s fun v s' =>
      Keeps (typing types known) holds ok s s' ∧ Good types known s'.store result v := by
  rcases hcallee.type with ⟨c, _, rfl, hsignature, _⟩ | ⟨b, rfl, hsignature, hb⟩
  · have hvalid := hcallee.valid c (List.mem_singleton_self c)
    have hc := hcall c arguments s hinv hvalid
    rw [hsignature] at hc
    exact hc harguments
  · have hask := @safe_ask _ _ _ _ _ _ _ hhost hinv b hb arguments
    rw [hsignature] at hask
    exact hask harguments

theorem forall₂_grows {s s' : Store Bound.Function} {tys : List Ty} {vs : List Val}
    (h : List.Forall₂ (Good types known s) tys vs) (hgrows : s.Grows s') :
    List.Forall₂ (Good types known s') tys vs :=
  h.imp fun _ _ h => h.grows hgrows

theorem good_list {s : Store Bound.Function} {tys : List Ty} {vs : List Val} {ty : Ty}
    (h : List.Forall₂ (Good types known s) tys vs)
    (hfits : .error ∈ tys ∨ ∃ element, ty = .list element ∧ ∀ t ∈ tys, t = element) :
    Good types known s ty (.list vs) :=
  ⟨hasType_list (forall₂_type h) hfits, forall₂_valid h⟩

theorem forall₂_fitsGood {s : Store Bound.Function} {params tys : List Ty} {vs : List Val}
    (hfits : List.Forall₂ Ty.Fits params tys) (h : List.Forall₂ (Good types known s) tys vs) :
    List.Forall₂ (Good types known s) params vs := by
  induction hfits generalizing vs with
  | nil => exact h
  | cons hfit _ ih =>
    cases h with
    | cons head tail => exact .cons ⟨head.type.fits hfit, head.valid⟩ (ih tail)

mutual

theorem safe_expr (hhost : host.Sound types known holds ok) (hcall : SoundCalls types known holds ok call)
    {around : Option Signature} {locals ready : List Cell} {e : Bound.Expr} {ty : Ty} {s : State σ}
    (h : TypedExpr types around ready e ty) (hinv : Invariant (typing types known) holds ok s)
    (hin : InFrame s.store frame around locals ready) :
    Safe (expr host call frame e) s fun v s' => Keeps (typing types known) holds ok s s' ∧
    Good types known s'.store ty v := by
  cases e with
  | number value =>
    cases h
    exact ends_pure ⟨.refl hinv, good_of_closures_nil (hasType_int.2 ⟨_, rfl⟩) rfl⟩
  | text value =>
    cases h
    exact ends_pure ⟨.refl hinv, good_of_closures_nil (hasType_str.2 ⟨_, rfl⟩) rfl⟩
  | truth value =>
    cases h
    exact ends_pure ⟨.refl hinv, good_of_closures_nil (hasType_bool.2 ⟨_, rfl⟩) rfl⟩
  | read cell =>
    cases h with
    | read inReach type =>
      unfold expr
      refine (safe_load hinv (hin.ready cell inReach) type).imp fun v s' hload => ?_
      obtain ⟨rfl, hgood⟩ := hload
      exact ⟨.refl hinv, hgood⟩
  | self =>
    cases h with
    | self signature =>
      obtain ⟨c, hrunning, hsignature⟩ := hin.around signature rfl
      obtain ⟨hframe, ready, htyped, hready⟩ := hinv.running frame c hrunning
      unfold expr selfReference
      refine ends_get ?_
      rw [hrunning]
      refine ends_pure ⟨.refl hinv, Or.inl ⟨c, ready, rfl, hsignature, htyped⟩, fun c' hc' => ?_⟩
      obtain rfl := List.mem_singleton.1 hc'
      exact ⟨hframe, ready, htyped, hready⟩
  | list items =>
    cases h with
    | list given fits =>
      unfold expr
      refine ends_bind.2 ((safe_exprs hhost hcall given hinv hin).imp fun vs s' hgiven => ?_)
      exact ends_pure ⟨hgiven.1, good_list hgiven.2 fits⟩
  | function f =>
    cases h with
    | function inside =>
      unfold expr
      exact safe_makeFunction hinv hin inside
  | call callee arguments =>
    cases h with
    | call given function fits =>
      unfold expr
      refine ends_bind.2 ((safe_exprs hhost hcall given hinv hin).imp fun vs s₁ hgiven => ?_)
      obtain ⟨hkeeps, hvs⟩ := hgiven
      refine ends_bind.2 ((safe_expr hhost hcall function hkeeps.invariant (hin.grows hkeeps.grows)).imp
        fun v s₂ hfunction => ?_)
      obtain ⟨hkeeps', hv⟩ := hfunction
      rcases fits with rfl | ⟨params, rfl, hparams⟩
      · exact hv.type.elim
      · refine (safe_apply hhost hcall hkeeps'.invariant hv
          (forall₂_fitsGood hparams (forall₂_grows hvs hkeeps'.grows))).imp fun w s₃ happly => ?_
        exact ⟨(hkeeps.trans hkeeps').trans happly.1, happly.2⟩
  | assign cell value =>
    cases h with
    | @assign _ _ _ _ ty wanted accepted inReach type fits =>
      unfold expr
      refine ends_bind.2 ((safe_expr hhost hcall accepted hinv hin).imp fun v s₁ haccepted => ?_)
      obtain ⟨hkeeps, hv⟩ := haccepted
      obtain ⟨holder, old, hholder, hold⟩ := (hin.grows hkeeps.grows).ready cell inReach
      have hwanted : Good types known s₁.store wanted v := by
        rcases fits with rfl | hfits
        · -- a variable of the type of what failed has no value
          obtain ⟨ty', hty', hgood⟩ := hkeeps.invariant.slots holder cell.id old hold
          rw [type] at hty'
          cases hty'
          exact hgood.type.elim
        · exact ⟨hv.type.fits hfits, hv.valid⟩
      refine ends_bind.2 ((safe_assign hkeeps.invariant hholder type hwanted).imp fun _ s₂ hassign => ?_)
      exact ends_pure ⟨hkeeps.trans hassign.1, good_of_closures_nil rfl rfl⟩
  | binary op left right =>
    cases h with
    | binary onLeft onRight fits =>
      unfold expr
      refine ends_bind.2 ((safe_expr hhost hcall onLeft hinv hin).imp fun l s₁ hleft => ?_)
      obtain ⟨hkeeps, hl⟩ := hleft
      refine ends_bind.2 ((safe_expr hhost hcall onRight hkeeps.invariant (hin.grows hkeeps.grows)).imp
        fun r s₂ hright => ?_)
      obtain ⟨hkeeps', hr⟩ := hright
      rcases fits with rfl | rfl | htakes
      · exact hl.type.elim
      · exact hr.type.elim
      · rcases takes_apply htakes hl.type hr.type with ⟨u, hu, hty⟩ | hzero
        · rw [hu]
          exact ends_pure ⟨hkeeps.trans hkeeps', good_of_closures_nil hty (BinaryOp.apply_closures hu)⟩
        · rw [hzero]
          exact trivial
  | subscript target index =>
    cases h with
    | subscript onTarget onIndex fits =>
      unfold expr
      refine ends_bind.2 ((safe_expr hhost hcall onTarget hinv hin).imp fun t s₁ htarget => ?_)
      obtain ⟨hkeeps, ht⟩ := htarget
      refine ends_bind.2 ((safe_expr hhost hcall onIndex hkeeps.invariant (hin.grows hkeeps.grows)).imp
        fun i s₂ hindex => ?_)
      obtain ⟨hkeeps', hi⟩ := hindex
      rcases fits with rfl | rfl | hfits
      · exact ht.type.elim
      · exact hi.type.elim
      · obtain ⟨u, hu, hty⟩ := hasType_subscript ht.type hi.type hfits
        rw [hu]
        have ht' := ht.grows hkeeps'.grows
        exact ends_pure ⟨hkeeps.trans hkeeps', hty, fun c hc => ht'.valid c (Value.closures_subscript hu c hc)⟩
termination_by structural e

theorem safe_exprs (hhost : host.Sound types known holds ok) (hcall : SoundCalls types known holds ok call)
    {around : Option Signature} {locals ready : List Cell} {es : List Bound.Expr} {tys : List Ty} {s : State σ}
    (h : TypedExprs types around ready es tys) (hinv : Invariant (typing types known) holds ok s)
    (hin : InFrame s.store frame around locals ready) :
    Safe (exprs host call frame es) s fun vs s' =>
      Keeps (typing types known) holds ok s s' ∧ List.Forall₂ (Good types known s'.store) tys vs := by
  cases es with
  | nil =>
    cases h
    exact ends_pure ⟨.refl hinv, .nil⟩
  | cons e es =>
    cases h with
    | cons head tail =>
      unfold exprs
      refine ends_bind.2 ((safe_expr hhost hcall head hinv hin).imp fun v s₁ hhead => ?_)
      obtain ⟨hkeeps, hv⟩ := hhead
      refine ends_bind.2 ((safe_exprs hhost hcall tail hkeeps.invariant (hin.grows hkeeps.grows)).imp
        fun vs s₂ htail => ?_)
      obtain ⟨hkeeps', hvs⟩ := htail
      exact ends_pure ⟨hkeeps.trans hkeeps', .cons (hv.grows hkeeps'.grows) hvs⟩
termination_by structural es

end

/-! ## Statements -/

/-- modules that have run export values of the types that `exports` gives -/
def Exporting (types : Nat → Option Ty) (known : Builtin → Prop) (exports : String → String → Option Ty)
    (s : State σ) : Prop :=
  ∀ module name ty, exports module name = some ty → ∃ v, export? s module name = some v ∧ HasType types known ty v

theorem Exporting.keeps {exports : String → String → Option Ty} {s s' : State σ}
    (h : Exporting types known exports s) (hkeeps : Keeps (typing types known) holds ok s s') :
    Exporting types known exports s' := by
  intro module name ty hty
  obtain ⟨v, hv, htype⟩ := h module name ty hty
  refine ⟨v, ?_, htype⟩
  unfold export?
  rw [hkeeps.modules]
  exact hv

/-- what a statement may come to: a value given back of the type that the function around it gives, or else `cells` that
have a value -/
def Outcome (types : Nat → Option Ty) (known : Builtin → Prop) (around : Option Signature) (frame : FrameId)
    (cells : List Cell) (s : Store Bound.Function) : Option Val → Prop
  | some v => ∃ signature, around = some signature ∧ Good types known s signature.result v
  | none => ∀ cell ∈ cells, s.Initialised frame cell.id

/-- a variable of the body gets its first value, or another one -/
theorem safe_declare {s : State σ} (hinv : Invariant (typing types known) holds ok s) {around : Option Signature}
    {locals ready : List Cell} (hin : InFrame s.store frame around locals ready) {cell : Cell} (hown : cell ∈ locals)
    {ty : Ty} (htype : types cell.id = some ty) {v : Val} (hgood : Good types known s.store ty v) :
    Safe (assign frame cell v) s fun _ s' =>
      Keeps (typing types known) holds ok s s' ∧ s'.store.Initialised frame cell.id := by
  have hholder : s.store.holder? frame cell.id = some frame := by
    rw [Store.holder?_eq, if_pos (hin.locals cell hown)]
  refine (safe_assign hinv hholder htype hgood).imp fun _ s' h => ⟨h.1, Store.initialised_of_slot? h.2⟩

theorem safe_fetch {exports : String → String → Option Ty} {around : Option Signature} {locals ready : List Cell}
    {module : String} {names : List (String × Cell)}
    (himports : ∀ n ∈ names, n.2 ∈ locals ∧ ∃ ty, exports module n.1 = some ty ∧ types n.2.id = some ty) {s : State σ}
    (hinv : Invariant (typing types known) holds ok s) (hexports : Exporting types known exports s)
    (hin : InFrame s.store frame around locals ready) :
    Safe (fetch frame module names) s fun _ s' =>
      Keeps (typing types known) holds ok s s' ∧ ∀ n ∈ names, s'.store.Initialised frame n.2.id := by
  induction names generalizing s with
  | nil => exact ends_pure ⟨.refl hinv, fun _ h => nomatch h⟩
  | cons n names ih =>
    obtain ⟨name, cell⟩ := n
    obtain ⟨hown, ty, hexport, htype⟩ := himports _ List.mem_cons_self
    obtain ⟨v, hv, hty⟩ := hexports module name ty hexport
    unfold fetch imported
    refine ends_bind.2 (ends_get ?_)
    rw [hv]
    refine ends_pure (ends_bind.2 ((safe_declare hinv hin hown htype ⟨hty, hinv.modules module name v hv⟩).imp
      fun _ s₁ hdeclared => ?_))
    obtain ⟨hkeeps, hinit⟩ := hdeclared
    refine (ih (fun n hn => himports n (List.mem_cons_of_mem _ hn)) hkeeps.invariant (hexports.keeps hkeeps)
      (hin.grows hkeeps.grows)).imp fun _ s₂ hrest => ⟨hkeeps.trans hrest.1, fun n hn => ?_⟩
    rcases List.mem_cons.1 hn with rfl | hn
    · exact hrest.1.grows.initialised (hin.grows hkeeps.grows).inside hinit
    · exact hrest.2 n hn

mutual

theorem safe_stmt (hhost : host.Sound types known holds ok) (hcall : SoundCalls types known holds ok call)
    {exports : String → String → Option Ty} {around : Option Signature} {locals ready : List Cell} {st : Bound.Stmt}
    {s : State σ} (h : TypedStmt types exports around locals ready st)
    (hinv : Invariant (typing types known) holds ok s)
    (hexports : Exporting types known exports s) (hin : InFrame s.store frame around locals ready) :
    Safe (stmt host call frame st) s fun result s' =>
      Keeps (typing types known) holds ok s s' ∧ Outcome types known around frame st.assigned s'.store result := by
  cases st with
  | cond condition body =>
    cases h with
    | cond test fits inside =>
      unfold stmt
      refine ends_bind.2 ((safe_expr hhost hcall test hinv hin).imp fun v s₁ htest => ?_)
      obtain ⟨hkeeps, hv⟩ := htest
      obtain ⟨b, rfl⟩ := hasType_bool.1 (hv.type.fits fits)
      change Safe (if b = true then stmts host call frame body else pure none) s₁ _
      split
      · refine (safe_stmts hhost hcall inside hkeeps.invariant (hexports.keeps hkeeps) (hin.grows hkeeps.grows)).imp
          fun result s₂ hinside => ⟨hkeeps.trans hinside.1, ?_⟩
        cases result with
        | some w => exact hinside.2
        | none => exact fun _ h => nomatch h
      · exact ends_pure ⟨hkeeps, fun _ h => nomatch h⟩
  | declare cell value =>
    cases h with
    | declare accepted own type fits =>
      unfold stmt
      refine ends_bind.2 ((safe_expr hhost hcall accepted hinv hin).imp fun v s₁ haccepted => ?_)
      obtain ⟨hkeeps, hv⟩ := haccepted
      refine ends_bind.2 ((safe_declare hkeeps.invariant (hin.grows hkeeps.grows) own type
        ⟨hv.type.fits fits, hv.valid⟩).imp fun _ s₂ hdeclared => ?_)
      refine ends_pure ⟨hkeeps.trans hdeclared.1, fun c hc => ?_⟩
      obtain rfl := List.mem_singleton.1 hc
      exact hdeclared.2
  | giveBack value =>
    cases value with
    | none =>
      cases h with
      | @giveNothing _ signature _ _ fits =>
        have hgood : Good types known s.store signature.result .none := by
          rw [fits]
          exact good_of_closures_nil rfl rfl
        exact ends_pure ⟨.refl hinv, signature, rfl, hgood⟩
    | some e =>
      cases h with
      | @giveBack _ signature _ _ _ ty given fits =>
        unfold stmt
        refine ends_bind.2 ((safe_expr hhost hcall given hinv hin).imp fun v s₁ hgiven => ?_)
        exact ends_pure ⟨hgiven.1, signature, rfl, hgiven.2.type.fits fits, hgiven.2.valid⟩
  | eval e =>
    cases h with
    | eval evaluated =>
      unfold stmt
      refine ends_bind.2 ((safe_expr hhost hcall evaluated hinv hin).imp fun v s₁ hevaluated => ?_)
      exact ends_pure ⟨hevaluated.1, fun _ h => nomatch h⟩
  | use module names =>
    cases h with
    | use imports =>
      unfold stmt
      refine ends_bind.2 ((safe_fetch imports hinv hexports hin).imp fun _ s₁ hfetched => ?_)
      refine ends_pure ⟨hfetched.1, fun cell hcell => ?_⟩
      obtain ⟨n, hn, rfl⟩ := List.mem_map.1 hcell
      exact hfetched.2 n hn
termination_by structural st

theorem safe_stmts (hhost : host.Sound types known holds ok) (hcall : SoundCalls types known holds ok call)
    {exports : String → String → Option Ty} {around : Option Signature} {locals ready : List Cell}
    {ss : List Bound.Stmt} {s : State σ} (h : TypedStmts types exports around locals ready ss)
    (hinv : Invariant (typing types known) holds ok s) (hexports : Exporting types known exports s)
    (hin : InFrame s.store frame around locals ready) :
    Safe (stmts host call frame ss) s fun result s' =>
      Keeps (typing types known) holds ok s s' ∧
        Outcome types known around frame (Bound.Stmt.assignedIn ss) s'.store result := by
  cases ss with
  | nil =>
    cases h
    exact ends_pure ⟨.refl hinv, fun _ h => nomatch h⟩
  | cons st ss =>
    cases h with
    | cons head tail =>
      unfold stmts
      refine ends_bind.2 ((safe_stmt hhost hcall head hinv hexports hin).imp fun result s₁ hhead => ?_)
      obtain ⟨hkeeps, hout⟩ := hhead
      cases result with
      | some v => exact ends_pure ⟨hkeeps, hout⟩
      | none =>
        have hin' := hin.grows hkeeps.grows
        refine (safe_stmts hhost hcall tail hkeeps.invariant (hexports.keeps hkeeps) (hin'.more hout)).imp
          fun result s₂ htail => ⟨hkeeps.trans htail.1, ?_⟩
        cases result with
        | some v => exact htail.2
        | none =>
          intro cell hcell
          rcases List.mem_append.1 hcell with hcell | hcell
          · exact htail.1.grows.initialised hin'.inside (hout cell hcell)
          · exact htail.2 cell hcell
termination_by structural ss

end

/-! ## Calls -/

/-- statements the last of which gives back a value give one back, where they come to an end -/
theorem stmts_giveBack {ss : List Bound.Stmt} {value : Option Bound.Expr} (hlast : ss.getLast? = some (.giveBack value))
    {s s' : State σ} {result : Option Val} (h : stmts host call frame ss s = .ok result s') : result.isSome = true := by
  induction ss generalizing s with
  | nil => cases hlast
  | cons st ss ih =>
    unfold stmts at h
    rw [bind_apply] at h
    cases hst : stmt host call frame st s with
    | error fault s₁ => rw [hst] at h; cases h
    | ok found s₁ =>
      rw [hst] at h
      cases found with
      | some v => cases h; rfl
      | none =>
        cases ss with
        | cons st' ss => exact ih (by simpa using hlast) h
        | nil =>
          obtain rfl : st = .giveBack value := by simpa using hlast
          cases value with
          | none => cases hst
          | some e =>
            unfold stmt at hst
            rw [bind_apply] at hst
            cases he : expr host call frame e s with
            | error fault s₂ => rw [he] at hst; cases hst
            | ok v s₂ => rw [he] at hst; cases hst

/-- a call of a function is safe, however many calls more may be open -/
theorem safe_invoke (hhost : host.Sound types known holds ok) (limit remaining : Nat) :
    SoundCalls types known holds ok (invoke host limit remaining) := by
  induction remaining with
  | zero => exact fun _ _ _ _ _ _ => trivial
  | succ remaining ih =>
    intro c arguments s hinv hvalid harguments
    obtain ⟨hframe, ready, htyped, hready⟩ := hvalid
    unfold invoke
    refine ends_bind.2 ((safe_openCall hinv hframe htyped hready harguments).imp fun frame s₁ hopened => ?_)
    obtain ⟨hkeeps, hin⟩ := hopened
    cases htyped with
    | mk _ _ _ ends body =>
      have hbody := safe_stmts hhost ih body hkeeps.invariant (fun _ _ _ h => nomatch h) hin
      refine ends_bind.2 (hbody.ran.imp fun result s₂ hran => ?_)
      obtain ⟨hrun, hkeeps', hout⟩ := hran
      refine ⟨hkeeps.trans hkeeps', ?_⟩
      cases result with
      | some v =>
        obtain ⟨signature, hsignature, hgood⟩ := hout
        cases hsignature
        exact hgood
      | none =>
        rcases ends with hvoid | ⟨value, hlast⟩
        · change Good types known s₂.store c.template.signature.result .none
          rw [hvoid]
          exact good_of_closures_nil rfl rfl
        · have hsome := stmts_giveBack hlast hrun
          cases hsome

end Direct

end TypedScript
