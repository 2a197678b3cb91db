/-
Types of values. A function has the types that `made` gives to what it was made from, a function of the host the one
that it is declared with. No value has the type of what failed to check, so that nothing needs to be known of what is
done with one.

- `Value.apply_has`: an operator gives what its type says, or refuses to divide by zero.
- `Value.subscript_has`: a subscript gives an element or nothing.
-/
import Mathlib.Data.List.Forall2
import TypedScript.Proofs.Machine.Functions
import TypedScript.Proofs.Typing.Plain

namespace TypedScript

namespace Value

variable {φ : Type}

section

variable (made : Signature → φ → Prop) (known : Builtin → Prop)

/-- a value has a type, where `made` says which signatures the body of a function has and `known` are the functions of
the host -/
def Has : Ty → Value φ → Prop
  | .error, _ => False
  | .any, _ => True
  | .void, v => v = .none
  | .ident name, v =>
    (name = "Int" ∧ ∃ n, v = .int n) ∨ (name = "Str" ∧ ∃ text, v = .str text) ∨ (name = "Bool" ∧ ∃ b, v = .bool b)
  | .list element, v => ∃ items, v = .list items ∧ ∀ item ∈ items, Has element item
  | .optional child, v => v = .none ∨ Has child v
  | .tuple _, _ => False
  | .function params result, v =>
    (∃ c, v = .closure c ∧ made ⟨params, result⟩ c.template) ∨ ∃ b, v = .builtin b ∧
      b.signature = ⟨params, result⟩ ∧ known b

end

variable {made : Signature → φ → Prop} {known : Builtin → Prop} {v w : Value φ} {ty : Ty}

theorem has_int : Has made known .int v ↔ ∃ n, v = .int n := by
  simp [Has, Ty.int]

theorem has_str : Has made known .str v ↔ ∃ text, v = .str text := by
  simp [Has, Ty.str]

theorem has_bool : Has made known .bool v ↔ ∃ b, v = .bool b := by
  simp [Has, Ty.bool]

/-- where a type is fit for another one, its values have that one -/
theorem Has.fits {wanted : Ty} (h : Has made known ty v) (hfits : wanted.Fits ty) : Has made known wanted v := by
  rcases hfits with rfl | rfl
  · exact h.elim
  · exact h

theorem forall₂_has_fits {params tys : List Ty} {vs : List (Value φ)} (hfits : List.Forall₂ Ty.Fits params tys)
    (h : List.Forall₂ (Has made known) tys vs) : List.Forall₂ (Has made known) params vs := by
  induction hfits generalizing vs with
  | nil => exact h
  | cons hfit _ ih =>
    cases h with
    | cons head tail => exact .cons (head.fits hfit) (ih tail)

/-- a list has the type that all its elements have; where one of them has the type of what failed, there is no list -/
theorem has_list {tys : List Ty} {vs : List (Value φ)} (h : List.Forall₂ (Has made known) tys vs)
    (hfits : .error ∈ tys ∨ ∃ element, ty = .list element ∧ ∀ t ∈ tys, t = element) : Has made known ty (.list vs) := by
  rcases hfits with herror | ⟨element, rfl, hall⟩
  · obtain ⟨i, hi, heq⟩ := List.getElem_of_mem herror
    have hitem := h.get hi (h.length_eq ▸ hi)
    rw [List.get_eq_getElem, heq] at hitem
    exact hitem.elim
  · refine ⟨vs, rfl, fun item hitem => ?_⟩
    obtain ⟨i, hi, rfl⟩ := List.getElem_of_mem hitem
    have hi' : i < tys.length := h.length_eq ▸ hi
    rw [← hall tys[i] (List.getElem_mem hi')]
    exact h.get hi' hi

/-! ## Operators -/

theorem onInts_has {op : BinaryOp} (h : op ∈ [.add, .subtract, .multiply, .divide, .modulo]) (a b : Int64) :
    (∃ u : Value φ, op.onInts a b = .ok u ∧ Has made known .int u) ∨
      (op.onInts a b : Except RuntimeFault (Value φ)) = .error .divisionByZero := by
  simp only [List.mem_cons, List.not_mem_nil, or_false] at h
  by_cases hb : b = 0
  · rcases h with rfl | rfl | rfl | rfl | rfl
    · exact Or.inl ⟨_, rfl, has_int.2 ⟨_, rfl⟩⟩
    · exact Or.inl ⟨_, rfl, has_int.2 ⟨_, rfl⟩⟩
    · exact Or.inl ⟨_, rfl, has_int.2 ⟨_, rfl⟩⟩
    · exact Or.inr (if_pos hb)
    · exact Or.inr (if_pos hb)
  · rcases h with rfl | rfl | rfl | rfl | rfl
    · exact Or.inl ⟨_, rfl, has_int.2 ⟨_, rfl⟩⟩
    · exact Or.inl ⟨_, rfl, has_int.2 ⟨_, rfl⟩⟩
    · exact Or.inl ⟨_, rfl, has_int.2 ⟨_, rfl⟩⟩
    · exact Or.inl ⟨_, if_neg hb, has_int.2 ⟨_, rfl⟩⟩
    · exact Or.inl ⟨_, if_neg hb, has_int.2 ⟨_, rfl⟩⟩

/-- an operator gives what its type says, or refuses to divide by zero -/
theorem apply_has {op : BinaryOp} {left right : Ty} (h : op.Takes left right ty) (hv : Has made known left v)
    (hw : Has made known right w) :
    (∃ u, op.apply v w = .ok u ∧ Has made known ty u) ∨ op.apply v w = .error .divisionByZero := by
  cases h with
  | number hop =>
    obtain ⟨a, rfl⟩ := has_int.1 hv
    obtain ⟨b, rfl⟩ := has_int.1 hw
    have happly : op.apply (.int a : Value φ) (.int b) = op.onInts a b := by
      simp only [List.mem_cons, List.not_mem_nil, or_false] at hop
      rcases hop with rfl | rfl | rfl | rfl | rfl <;> rfl
    rw [happly]
    exact onInts_has hop a b
  | text =>
    obtain ⟨a, rfl⟩ := has_str.1 hv
    obtain ⟨b, rfl⟩ := has_str.1 hw
    exact Or.inl ⟨_, rfl, has_str.2 ⟨_, rfl⟩⟩
  | order hop =>
    obtain ⟨a, rfl⟩ := has_int.1 hv
    obtain ⟨b, rfl⟩ := has_int.1 hw
    simp only [List.mem_cons, List.not_mem_nil, or_false] at hop
    rcases hop with rfl | rfl | rfl | rfl <;> exact Or.inl ⟨_, rfl, has_bool.2 ⟨_, rfl⟩⟩
  | equality _ hop =>
    simp only [List.mem_cons, List.not_mem_nil, or_false] at hop
    rcases hop with rfl | rfl <;> exact Or.inl ⟨_, rfl, has_bool.2 ⟨_, rfl⟩⟩
  | logic hop =>
    obtain ⟨a, rfl⟩ := has_bool.1 hv
    obtain ⟨b, rfl⟩ := has_bool.1 hw
    simp only [List.mem_cons, List.not_mem_nil, or_false] at hop
    rcases hop with rfl | rfl <;> exact Or.inl ⟨_, rfl, has_bool.2 ⟨_, rfl⟩⟩

/-! ## Subscripts -/

/-- a subscript of a list gives an element or nothing -/
theorem subscript_has_list {element : Ty} {index : Value φ} (hv : Has made known (.list element) v)
    (hindex : Has made known .int index) : ∃ u, v.subscript index = .ok u ∧ Has made known (.optional element) u := by
  obtain ⟨items, rfl, hitems⟩ := hv
  obtain ⟨i, rfl⟩ := has_int.1 hindex
  exact ⟨_, rfl, (itemAt_eq items i).imp_right (hitems _)⟩

/-- a subscript of a text gives a character or nothing -/
theorem subscript_has_text {index : Value φ} (hv : Has made known .str v) (hindex : Has made known .int index) :
    ∃ u, v.subscript index = .ok u ∧ Has made known (.optional .str) u := by
  obtain ⟨text, rfl⟩ := has_str.1 hv
  obtain ⟨i, rfl⟩ := has_int.1 hindex
  refine ⟨_, rfl, (itemAt_eq _ i).imp_right fun hmem => ?_⟩
  obtain ⟨c, _, hc⟩ := List.mem_map.1 hmem
  exact has_str.2 ⟨_, hc.symm⟩

theorem subscript_has {target index : Ty} {i : Value φ} (hv : Has made known target v) (hi : Has made known index i)
    (hfits : index = .int ∧ (target = .str ∧ ty = .optional .str ∨ ∃ element, target = .list element ∧
      ty = .optional element)) : ∃ u, v.subscript i = .ok u ∧ Has made known ty u := by
  obtain ⟨rfl, ⟨rfl, rfl⟩ | ⟨element, rfl, rfl⟩⟩ := hfits
  · exact subscript_has_text hv hi
  · exact subscript_has_list hv hi

end Value

end TypedScript
