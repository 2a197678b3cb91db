/-
Types of the values of direct evaluation. A function has the type that its literal is declared with, where the literal
follows the rules of typed trees; a function of the host has the type that it is declared with. No value has the type of
what failed to check.

- `hasType_iff`: a value has a type as it would in any run, where functions are made from typed literals.
- `takes_apply`: an operator gives what its type says, or refuses to divide by zero.
- `hasType_subscript`: a subscript gives an element or nothing.
-/
import TypedScript.Proofs.Bound.Typing
import TypedScript.Proofs.Direct.Evaluate
import TypedScript.Proofs.Machine.Types

namespace TypedScript

namespace Direct

section

variable (types : Nat → Option Ty) (known : Builtin → Prop)

/-- a value has a type, where `types` gives the type of each cell by its number and `known` are the functions of the
host -/
def HasType : Ty → Val → Prop
  | .error, _ => False
  | .any, _ => True
  | .void, v => v = .none
  | .ident name, v =>
    (name = "Int" ∧ ∃ n, v = .int n) ∨ (name = "Str" ∧ ∃ text, v = .str text) ∨ (name = "Bool" ∧ ∃ b, v = .bool b)
  | .list element, v => ∃ items, v = .list items ∧ ∀ item ∈ items, HasType element item
  | .optional child, v => v = .none ∨ HasType child v
  | .tuple _, _ => False
  | .function params result, v =>
    (∃ c ready, v = .closure c ∧ c.template.signature = ⟨params, result⟩ ∧ Bound.TypedFunction types ready c.template) ∨
      ∃ b, v = .builtin b ∧ b.signature = ⟨params, result⟩ ∧ known b

end

variable {types : Nat → Option Ty} {known : Builtin → Prop} {v w : Val} {ty : Ty}

/-- a literal is declared with a signature and typed -/
def Declares (types : Nat → Option Ty) (signature : Signature) (f : Bound.Function) : Prop :=
  f.signature = signature ∧ ∃ ready, Bound.TypedFunction types ready f

theorem hasType_iff {ty : Ty} {v : Val} : HasType types known ty v ↔ v.Has (Declares types) known ty := by
  cases ty with
  | list element =>
    refine exists_congr fun items => and_congr_right fun _ => forall_congr' fun item => forall_congr' fun _ => ?_
    exact hasType_iff
  | optional child => exact or_congr_right hasType_iff
  | function params result =>
    refine or_congr ⟨?_, ?_⟩ Iff.rfl
    · rintro ⟨c, ready, hv, hsignature, htyped⟩
      exact ⟨c, hv, hsignature, ready, htyped⟩
    · rintro ⟨c, hv, hsignature, ready, htyped⟩
      exact ⟨c, ready, hv, hsignature, htyped⟩
  | _ => exact Iff.rfl
termination_by structural ty

/-! ## Values of a type -/

theorem hasType_int : HasType types known .int v ↔ ∃ n, v = .int n := hasType_iff.trans Value.has_int

theorem hasType_str : HasType types known .str v ↔ ∃ text, v = .str text := hasType_iff.trans Value.has_str

theorem hasType_bool : HasType types known .bool v ↔ ∃ b, v = .bool b := hasType_iff.trans Value.has_bool

/-- where a type is fit for another one, its values have that one -/
theorem HasType.fits {wanted : Ty} (h : HasType types known ty v) (hfits : wanted.Fits ty) :
    HasType types known wanted v := hasType_iff.2 ((hasType_iff.1 h).fits hfits)

theorem hasType_forall₂_iff {tys : List Ty} {vs : List Val} :
    List.Forall₂ (HasType types known) tys vs ↔ List.Forall₂ (Value.Has (Declares types) known) tys vs :=
  ⟨fun h => h.imp fun _ _ => hasType_iff.1, fun h => h.imp fun _ _ => hasType_iff.2⟩

/-- a list has the type that all its elements have -/
theorem hasType_list {tys : List Ty} {vs : List Val} (h : List.Forall₂ (HasType types known) tys vs)
    (hfits : .error ∈ tys ∨ ∃ element, ty = .list element ∧ ∀ t ∈ tys, t = element) :
    HasType types known ty (.list vs) :=
  hasType_iff.2 (Value.has_list (hasType_forall₂_iff.1 h) hfits)

/-! ## Operators and subscripts -/

/-- an operator gives what its type says, or refuses to divide by zero -/
theorem takes_apply {op : BinaryOp} {left right : Ty} (h : op.Takes left right ty)
    (hv : HasType types known left v) (hw : HasType types known right w) :
    (∃ u, op.apply v w = .ok u ∧ HasType types known ty u) ∨ op.apply v w = .error .divisionByZero := by
  refine (Value.apply_has h (hasType_iff.1 hv) (hasType_iff.1 hw)).imp_left ?_
  rintro ⟨u, hu, hty⟩
  exact ⟨u, hu, hasType_iff.2 hty⟩

theorem hasType_subscript {target index : Ty} {i : Val} (hv : HasType types known target v)
    (hi : HasType types known index i)
    (hfits : index = .int ∧ (target = .str ∧ ty = .optional .str ∨ ∃ element, target = .list element ∧
      ty = .optional element)) :
    ∃ u, v.subscript i = .ok u ∧ HasType types known ty u := by
  obtain ⟨u, hu, hty⟩ := Value.subscript_has (hasType_iff.1 hv) (hasType_iff.1 hi) hfits
  exact ⟨u, hu, hasType_iff.2 hty⟩

end Direct

end TypedScript
