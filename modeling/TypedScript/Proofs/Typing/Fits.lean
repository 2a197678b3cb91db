/-
What the check has found of types where it reports nothing. Each piece of checking that only asks whether types fit says
so in its own terms; where `Any` stands nowhere in the types, they are then those that are wanted, or that of what
failed to check.

- `call_fits`, `binary_fits`, `subscript_fits`, `giveBack_fits`: the types of what was checked in a clean module.
-/
import Mathlib.Data.List.Forall2
import TypedScript.Proofs.Typing.Plain
import TypedScript.Proofs.Typing.Steps

namespace TypedScript

namespace Check

variable {α : Type} {p : Place} {r r' : Record} {ids : List Nat}

/-- what a sound piece gives in a clean module -/
theorem Sound.result {x : Check α} {Q : α → Record → Prop} {a : α} (hx : Sound True p ids x r Q) (hr : Ready p r)
    (hc : Clean p r') (h : x r = (a, r')) : Q a r' := by
  have hresult := (hx hr).2 trivial
  rw [h] at hresult
  exact hresult hc

/-! ## Pieces -/

theorem sound_compareArguments (index : Nat) (params : List Ty) (arguments : List (Ty × Span))
    (hlength : params.length = arguments.length) :
    Sound True p [] (compareArguments p index params arguments) r fun _ _ =>
      List.Forall₂ (fun expected given => (given.1.isError || expected.equals given.1) = true) params arguments := by
  induction params generalizing index arguments r with
  | nil =>
    obtain rfl := List.length_eq_zero_iff.1 hlength.symm
    exact .pure .nil
  | cons expected params ih =>
    cases arguments with
    | nil => cases hlength
    | cons argument arguments =>
      obtain ⟨received, span⟩ := argument
      have hlength := Nat.succ.inj hlength
      unfold compareArguments
      dsimp only
      split
      · exact (sound_report _ _ (Q := fun _ _ => False)).bind fun _ r' _ _ =>
          (ih (index + 1) arguments hlength).mono fun _ _ _ _ h => h.elim
      · next hfits =>
        refine (ih (index + 1) arguments hlength).mono fun _ _ _ hrest => .cons ?_ hrest
        cases hreceived : received.isError <;> simp_all

theorem sound_call (callee : Ty) (arguments : List (Ty × Span)) (span : Span) :
    Sound True p [] (call p callee arguments span) r fun result _ =>
      (callee = .error ∧ result = .error) ∨ callee = .any ∨ ∃ params, callee = .function params result ∧
        List.Forall₂ (fun expected given => (given.1.isError || expected.equals given.1) = true) params arguments := by
  unfold call
  split
  · exact .pure (Or.inl ⟨rfl, rfl⟩)
  · exact .pure (Or.inr (Or.inl rfl))
  · next params result =>
    split
    · exact sound_refuse _ _
    · next hlength =>
      refine (sound_compareArguments 1 params arguments (by simpa using hlength)).bind fun _ _ _ _ => ?_
      exact .pure fun hfits => Or.inr (Or.inr ⟨params, rfl, hfits⟩)
  · exact sound_refuse _ _

theorem sound_binary (operator : String) (left right : Ty) (span : Span) :
    Sound True p [] (binary p operator left right span) r fun ty _ =>
      ((left.isError || right.isError) = true ∧ ty = .error) ∨ resolveOperator operator left right = .ok ty := by
  unfold binary
  split
  · next herror => exact .pure (Or.inl ⟨herror, rfl⟩)
  split
  · next ty hty => exact .pure (Or.inr hty)
  · exact sound_refuse _ _
  · exact sound_refuse _ _

theorem sound_subscript (target index : Ty) (indexSpan span : Span) :
    Sound True p [] (subscript p target index indexSpan span) r fun ty _ =>
      ((target.isError || index.isError) = true ∧ ty = .error) ∨
        (∃ element, target = .list element ∧ Ty.int.equals index = true ∧ ty = .optional element) ∨
          resolveOperator OperatorRule.subscript target index = .ok ty := by
  unfold subscript
  split
  · next herror => exact .pure (Or.inl ⟨herror, rfl⟩)
  split
  · next element _ =>
    split
    · next hindex => exact .pure (Or.inr (Or.inl ⟨element, rfl, hindex, rfl⟩))
    · exact sound_refuse _ _
  · split
    · next ty hty => exact .pure (Or.inr (Or.inr hty))
    · exact sound_refuse _ _

theorem sound_giveBack (value : Option (Ty × Span)) (span : Span) :
    Sound True p [] (giveBack p value span) r fun _ _ =>
      ∃ signature, r.arena.signature? p.scope = some signature ∧
        match value with
        | none => signature.result.isVoid = true
        | some given => (given.1.isError || signature.result.equals given.1) = true := by
  unfold giveBack
  refine Sound.get_bind ?_
  split
  · exact sound_report _ _
  next signature hsignature =>
  dsimp only
  split
  · split
    · exact sound_report _ _
    · next hvoid => exact .pure ⟨signature, hsignature, by simpa using hvoid⟩
  · split
    · next herror => exact .pure ⟨signature, hsignature, Bool.or_eq_true_iff.2 (Or.inl herror)⟩
    split
    · exact sound_report _ _
    split
    · exact sound_report _ _
    · next hfits => exact .pure ⟨signature, hsignature, Bool.or_eq_true_iff.2 (Or.inr (by simpa using hfits))⟩

/-! ## Types of a kind -/

section

variable {P : Ty → Prop}

theorem call_fits (hP : Ty.Kind P) {callee result : Ty} {arguments : List (Ty × Span)} {span : Span} (hr : Ready p r)
    (hc : Clean p r) (hcallee : P callee) (harguments : ∀ given ∈ arguments, P given.1)
    (h : call p callee arguments span r = (result, r)) :
    (callee = .error ∨ ∃ params, callee = .function params result ∧
      List.Forall₂ Ty.Fits params (arguments.map Prod.fst)) ∧ P result := by
  rcases (sound_call callee arguments span).result hr hc h with ⟨rfl, rfl⟩ | rfl | ⟨params, rfl, hfits⟩
  · exact ⟨Or.inl rfl, hcallee⟩
  · cases hP.plain hcallee
  · obtain ⟨hparams, hresult⟩ := hP.function.1 hcallee
    refine ⟨Or.inr ⟨params, rfl, ?_⟩, hresult⟩
    rw [List.forall₂_map_right_iff]
    refine List.forall₂_iff_zip.2 ⟨hfits.length_eq, fun {expected given} hmem => ?_⟩
    obtain ⟨hexpected, hgiven⟩ := List.of_mem_zip hmem
    exact Ty.fits_of_equals (hP.plain (hparams expected hexpected)) (hP.plain (harguments given hgiven))
      ((List.forall₂_iff_zip.1 hfits).2 hmem)

theorem eq_error_of_either {l r : Ty} (h : (l.isError || r.isError) = true) : l = .error ∨ r = .error :=
  (Bool.or_eq_true_iff.1 h).imp Ty.eq_error_of_isError Ty.eq_error_of_isError

/-- where one of two types of a kind is that of what failed, that type is of the kind -/
theorem error_of_either {l r : Ty} (hl : P l) (hr : P r) (h : l = .error ∨ r = .error) : P .error := by
  rcases h with rfl | rfl
  · exact hl
  · exact hr

theorem binary_fits (hP : Ty.Kind P) {operator : String} {op : BinaryOp} {left right ty : Ty} {span : Span}
    (hr : Ready p r) (hc : Clean p r) (hop : BinaryOp.ofText? operator = some op) (hleft : P left)
    (hright : P right) (h : binary p operator left right span r = (ty, r)) :
    (left = .error ∨ right = .error ∨ op.Takes left right ty) ∧ P ty := by
  rcases (sound_binary operator left right span).result hr hc h with ⟨herror, rfl⟩ | hresolve
  · have heither := eq_error_of_either herror
    exact ⟨heither.imp_right Or.inl, error_of_either hleft hright heither⟩
  · have htakes := OperatorRule.takes (rule_of_resolveOperator (hP.plain hleft) (hP.plain hright) hresolve) hop
    exact ⟨Or.inr (Or.inr htakes), htakes.kind hP⟩

theorem subscript_fits (hP : Ty.Kind P) {target index ty : Ty} {indexSpan span : Span} (hr : Ready p r) (hc : Clean p r)
    (htarget : P target) (hindex : P index) (h : subscript p target index indexSpan span r = (ty, r)) :
    (target = .error ∨ index = .error ∨ index = .int ∧
      (target = .str ∧ ty = .optional .str ∨ ∃ element, target = .list element ∧ ty = .optional element)) ∧ P ty := by
  rcases (sound_subscript target index indexSpan span).result hr hc h with
    ⟨herror, rfl⟩ | ⟨element, rfl, hint, rfl⟩ | hresolve
  · have heither := eq_error_of_either herror
    exact ⟨heither.imp_right Or.inl, error_of_either htarget hindex heither⟩
  · have hint := Ty.eq_of_equals rfl (hP.plain hindex) hint
    exact ⟨Or.inr (Or.inr ⟨hint.symm, Or.inr ⟨element, rfl, rfl⟩⟩), hP.optional.2 (hP.list.1 htarget)⟩
  · obtain ⟨rfl, rfl, rfl⟩ :=
      OperatorRule.of_subscript (rule_of_resolveOperator (hP.plain htarget) (hP.plain hindex) hresolve)
    exact ⟨Or.inr (Or.inr ⟨rfl, Or.inl ⟨rfl, rfl⟩⟩), hP.optional.2 (hP.ident _)⟩

theorem giveNothing_fits {span : Span} (hr : Ready p r) (hc : Clean p r) (h : giveBack p none span r = ((), r)) :
    ∃ signature, r.arena.signature? p.scope = some signature ∧ signature.result = .void := by
  obtain ⟨⟨params, result⟩, hsignature, hvoid⟩ := (sound_giveBack none span).result hr hc h
  refine ⟨_, hsignature, ?_⟩
  cases result with
  | void => rfl
  | _ => cases hvoid

theorem giveBack_fits (hP : Ty.Kind P) {ty : Ty} {valueSpan span : Span} (hr : Ready p r) (hc : Clean p r) (hty : P ty)
    (hplain : ∀ signature, r.arena.signature? p.scope = some signature → P signature.ty)
    (h : giveBack p (some (ty, valueSpan)) span r = ((), r)) :
    ∃ signature, r.arena.signature? p.scope = some signature ∧ signature.result.Fits ty := by
  obtain ⟨signature, hsignature, hfits⟩ := (sound_giveBack (some (ty, valueSpan)) span).result hr hc h
  obtain ⟨_, hresult⟩ := hP.function.1 (hplain signature hsignature)
  exact ⟨signature, hsignature, Ty.fits_of_equals (hP.plain hresult) (hP.plain hty) hfits⟩

theorem assign_fits {wanted received : Ty} (hwanted : wanted.hasAny = false) (hreceived : received.hasAny = false)
    (h : (received.isError || wanted.isError || wanted.equals received) = true) :
    wanted = .error ∨ wanted.Fits received := by
  by_cases herror : wanted.isError = true
  · exact Or.inl (Ty.eq_error_of_isError herror)
  · refine Or.inr (Ty.fits_of_equals hwanted hreceived ?_)
    simpa [herror] using h

theorem list_fits {element : Ty} {tys : List (Ty × Span)} (helement : element.hasAny = false)
    (htys : ∀ given ∈ tys, given.1.hasAny = false)
    (h : ∀ t ∈ tys, (element.isError || t.1.isError || element.equals t.1) = true) :
    .error ∈ element :: tys.map Prod.fst ∨
      ∃ e, (if element.isError then Ty.error else .list element) = .list e ∧
      ∀ t ∈ element :: tys.map Prod.fst, t = e := by
  by_cases herror : element.isError = true
  · rw [Ty.eq_error_of_isError herror]
    exact Or.inl List.mem_cons_self
  by_cases hany : .error ∈ tys.map Prod.fst
  · exact Or.inl (List.mem_cons_of_mem _ hany)
  refine Or.inr ⟨element, if_neg herror, fun t ht => ?_⟩
  rcases List.mem_cons.1 ht with rfl | ht
  · rfl
  obtain ⟨given, hgiven, rfl⟩ := List.mem_map.1 ht
  have hfits : (given.1.isError || element.equals given.1) = true := by simpa [herror] using h given hgiven
  rcases Ty.fits_of_equals helement (htys given hgiven) hfits with hgivenError | heq
  · exact absurd (hgivenError ▸ ht) hany
  · exact heq.symm

theorem list_kind (hP : Ty.Kind P) {element : Ty} (h : P element) :
    P (if element.isError then Ty.error else .list element) := by
  split
  · next herror => exact Ty.eq_error_of_isError herror ▸ h
  · exact hP.list.2 h

end

end Check

end TypedScript
