/-
Types in which `Any` stands nowhere. Two such types are equal to the check only if they are the same type, so that what
the check asks of types then holds of them as they are.

- `Ty.eq_of_equals`: equal types without `Any` are the same type.
- `rule_of_resolveOperator`: an operator takes operands without `Any` as one of its rules says of just their types.
-/
import TypedScript.Code.Instruction
import TypedScript.Proofs.Tree.Nodes
import TypedScript.Typing.Operator

namespace TypedScript

namespace Ty

mutual

/-- `Any` stands somewhere in a type -/
def hasAny : Ty → Bool
  | any => true
  | error => false
  | void => false
  | ident _ => false
  | list element => hasAny element
  | optional child => hasAny child
  | tuple items => anyHasAny items
  | function params result => anyHasAny params || hasAny result

/-- `Any` stands somewhere in one of some types -/
def anyHasAny : List Ty → Bool
  | [] => false
  | ty :: tys => hasAny ty || anyHasAny tys

end

theorem anyHasAny_eq_false {tys : List Ty} : anyHasAny tys = false ↔ ∀ ty ∈ tys, ty.hasAny = false := by
  induction tys with
  | nil => simp [anyHasAny]
  | cons ty tys ih => simp [anyHasAny, ih]

mutual

/-- equal types without `Any` are the same type -/
theorem eq_of_equals {l r : Ty} (hl : l.hasAny = false) (hr : r.hasAny = false) (h : l.equals r = true) : l = r := by
  cases l with
  | error => cases h
  | any => cases hl
  | void =>
    cases r with
    | void => rfl
    | _ => cases h
  | ident name =>
    cases r with
    | any => cases hr
    | ident name' =>
      have hname : name = name' := of_decide_eq_true h
      rw [hname]
    | _ => cases h
  | list element =>
    cases r with
    | any => cases hr
    | list element' => exact congrArg list (eq_of_equals (l := element) hl hr h)
    | _ => cases h
  | optional child =>
    cases r with
    | any => cases hr
    | optional child' => exact congrArg optional (eq_of_equals (l := child) hl hr h)
    | _ => cases h
  | tuple items =>
    cases r with
    | any => cases hr
    | tuple items' => exact congrArg tuple (eq_of_allEqual hl hr h)
    | _ => cases h
  | function params result =>
    cases r with
    | any => cases hr
    | function params' result' =>
      obtain ⟨hparams, hresult⟩ := Bool.or_eq_false_iff.1 hl
      obtain ⟨hparams', hresult'⟩ := Bool.or_eq_false_iff.1 hr
      obtain ⟨heqs, heq⟩ := Bool.and_eq_true_iff.1 h
      rw [eq_of_allEqual hparams hparams' heqs, eq_of_equals hresult hresult' heq]
    | _ => cases h
termination_by structural l

theorem eq_of_allEqual {ls rs : List Ty} (hl : anyHasAny ls = false) (hr : anyHasAny rs = false)
    (h : allEqual ls rs = true) : ls = rs := by
  cases ls with
  | nil =>
    cases rs with
    | nil => rfl
    | cons r rs => cases h
  | cons l ls =>
    cases rs with
    | nil => cases h
    | cons r rs =>
      obtain ⟨hl, hls⟩ := Bool.or_eq_false_iff.1 hl
      obtain ⟨hr, hrs⟩ := Bool.or_eq_false_iff.1 hr
      obtain ⟨heq, heqs⟩ := Bool.and_eq_true_iff.1 h
      rw [eq_of_equals hl hr heq, eq_of_allEqual hls hrs heqs]
termination_by structural ls

end

/-! ### Kinds of types -/

mutual

/-- neither `Any` nor the type of what failed to check stands anywhere in a type -/
def isGenuine : Ty → Bool
  | any => false
  | error => false
  | void => true
  | ident _ => true
  | list element => isGenuine element
  | optional child => isGenuine child
  | tuple items => allGenuine items
  | function params result => allGenuine params && isGenuine result

def allGenuine : List Ty → Bool
  | [] => true
  | ty :: tys => isGenuine ty && allGenuine tys

end

theorem allGenuine_eq_true {tys : List Ty} : allGenuine tys = true ↔ ∀ ty ∈ tys, ty.isGenuine = true := by
  induction tys with
  | nil => simp [allGenuine]
  | cons ty tys ih => simp [allGenuine, ih]

mutual

theorem hasAny_of_isGenuine {ty : Ty} (h : ty.isGenuine = true) : ty.hasAny = false := by
  cases ty with
  | any => cases h
  | list element =>
    change element.hasAny = false
    exact hasAny_of_isGenuine h
  | optional child =>
    change child.hasAny = false
    exact hasAny_of_isGenuine h
  | tuple items => exact anyHasAny_of_allGenuine h
  | function params result =>
    obtain ⟨hparams, hresult⟩ := Bool.and_eq_true_iff.1 h
    exact Bool.or_eq_false_iff.2 ⟨anyHasAny_of_allGenuine hparams, hasAny_of_isGenuine hresult⟩
  | _ => rfl
termination_by structural ty

theorem anyHasAny_of_allGenuine {tys : List Ty} (h : allGenuine tys = true) : anyHasAny tys = false := by
  cases tys with
  | nil => rfl
  | cons ty tys =>
    obtain ⟨hty, htys⟩ := Bool.and_eq_true_iff.1 h
    exact Bool.or_eq_false_iff.2 ⟨hasAny_of_isGenuine hty, anyHasAny_of_allGenuine htys⟩
termination_by structural tys

end

mutual

/-- an annotation never stands for the type of what failed -/
theorem isGenuine_ofNote {note : Note} (h : (ofNote note).hasAny = false) : (ofNote note).isGenuine = true := by
  cases note with
  | any => cases h
  | list element =>
    change (ofNote element).isGenuine = true
    exact isGenuine_ofNote h
  | optional child =>
    change (ofNote child).isGenuine = true
    exact isGenuine_ofNote h
  | tuple items => exact allGenuine_ofNotes h
  | function params result =>
    obtain ⟨hparams, hresult⟩ := Bool.or_eq_false_iff.1 h
    exact Bool.and_eq_true_iff.2 ⟨allGenuine_ofNotes hparams, isGenuine_ofNote hresult⟩
  | _ => rfl
termination_by structural note

theorem allGenuine_ofNotes {notes : List Note} (h : anyHasAny (ofNotes notes) = false) :
    allGenuine (ofNotes notes) = true := by
  cases notes with
  | nil => rfl
  | cons note notes =>
    obtain ⟨hnote, hnotes⟩ := Bool.or_eq_false_iff.1 h
    exact Bool.and_eq_true_iff.2 ⟨isGenuine_ofNote hnote, allGenuine_ofNotes hnotes⟩
termination_by structural notes

end

/-- a kind of types without `Any`: a type is of the kind just if its parts are, and what annotations stand for is,
unless `Any` stands in it -/
structure Kind (P : Ty → Prop) : Prop where
  plain : ∀ {ty}, P ty → ty.hasAny = false
  void : P void
  ident : ∀ name, P (ident name)
  list : ∀ {element}, P (list element) ↔ P element
  optional : ∀ {child}, P (optional child) ↔ P child
  function : ∀ {params result}, P (function params result) ↔ (∀ ty ∈ params, P ty) ∧ P result
  note : ∀ {note}, (ofNote note).hasAny = false → P (ofNote note)

theorem kind_plain : Kind fun ty => ty.hasAny = false := by
  refine ⟨id, rfl, fun _ => rfl, Iff.rfl, Iff.rfl, fun {params result} => ?_, id⟩
  rw [← anyHasAny_eq_false]
  exact Bool.or_eq_false_iff

theorem kind_genuine : Kind fun ty => ty.isGenuine = true := by
  refine ⟨hasAny_of_isGenuine, rfl, fun _ => rfl, Iff.rfl, Iff.rfl, fun {params result} => ?_, isGenuine_ofNote⟩
  rw [← allGenuine_eq_true]
  exact Bool.and_eq_true_iff

theorem eq_error_of_isError {ty : Ty} (h : ty.isError = true) : ty = .error := by
  cases ty with
  | error => rfl
  | _ => cases h

/-- a type that the check takes where it wants another one: that one itself, or the type of what failed -/
def Fits (expected received : Ty) : Prop := received = .error ∨ expected = received

theorem fits_of_equals {expected received : Ty} (he : expected.hasAny = false) (hr : received.hasAny = false)
    (h : (received.isError || expected.equals received) = true) : Fits expected received := by
  rcases Bool.or_eq_true_iff.1 h with h | h
  · exact Or.inl (eq_error_of_isError h)
  · exact Or.inr (eq_of_equals he hr h)

end Ty

/-! ## Operators -/

namespace BinaryOp

/-- the types of the operands that an operator takes, and of what it gives -/
inductive Takes : BinaryOp → Ty → Ty → Ty → Prop
  | number {op : BinaryOp} (h : op ∈ [add, subtract, multiply, divide, modulo]) : Takes op .int .int .int
  | text : Takes add .str .str .str
  | order {op : BinaryOp} (h : op ∈ [less, lessEquals, greater, greaterEquals]) : Takes op .int .int .bool
  | equality {op : BinaryOp} (ty : Ty) (h : op ∈ [equals, notEquals]) : Takes op ty ty .bool
  | logic {op : BinaryOp} (h : op ∈ [and, or]) : Takes op .bool .bool .bool

theorem Takes.kind {P : Ty → Prop} (hP : Ty.Kind P) {op : BinaryOp} {left right ty : Ty} (h : op.Takes left right ty) :
    P ty := by
  cases h <;> exact hP.ident _

end BinaryOp

/-- the rules are about types without `Any` -/
theorem OperatorRule.plain : ∀ rule ∈ OperatorRule.all,
    rule.left.hasAny = false ∧ rule.right.hasAny = false ∧ rule.result.hasAny = false := by decide

/-- what operands without `Any` give, some rule says of just their types -/
theorem rule_of_resolveOperator {operator : String} {left right ty : Ty} (hleft : left.hasAny = false)
    (hright : right.hasAny = false) (h : resolveOperator operator left right = .ok ty) :
    (⟨operator, left, right, ty⟩ : OperatorRule) ∈ OperatorRule.all := by
  unfold resolveOperator at h
  dsimp only at h
  split at h
  · next rule hfind =>
    obtain ⟨hmem, hoperator⟩ := List.mem_filter.1 (List.mem_of_find?_eq_some hfind)
    have hfits := List.find?_some hfind
    obtain ⟨hl, hr⟩ := Bool.and_eq_true_iff.1 hfits
    obtain ⟨hplainLeft, hplainRight, _⟩ := OperatorRule.plain rule hmem
    rw [← of_decide_eq_true hoperator, ← Ty.eq_of_equals hplainLeft hleft hl, ← Ty.eq_of_equals hplainRight hright hr,
      ← Except.ok.inj h]
    exact hmem
  · cases h

theorem OperatorRule.takes {rule : OperatorRule} (h : rule ∈ OperatorRule.all) {op : BinaryOp}
    (hop : BinaryOp.ofText? rule.operator = some op) : op.Takes rule.left rule.right rule.result := by
  simp only [OperatorRule.all, OperatorRule.same, List.map_cons, List.map_nil, List.flatMap_cons, List.flatMap_nil,
    List.cons_append, List.nil_append, List.mem_cons, List.not_mem_nil, or_false] at h
  rcases h with rfl | rfl | rfl | rfl | rfl | rfl | rfl | rfl | rfl | rfl | rfl | rfl | rfl | rfl | rfl | rfl | rfl |
    rfl | rfl
  all_goals cases hop
  case inr.inl => exact .text
  all_goals first
    | exact .number (by decide)
    | exact .order (by decide)
    | exact .equality _ (by decide)
    | exact .logic (by decide)

/-- the only rule for subscripts -/
theorem OperatorRule.of_subscript {left right ty : Ty}
    (h : (⟨OperatorRule.subscript, left, right, ty⟩ : OperatorRule) ∈ OperatorRule.all) :
    left = .str ∧ right = .int ∧ ty = .optional .str := by
  simp only [OperatorRule.all, OperatorRule.same, List.map_cons, List.map_nil, List.flatMap_cons, List.flatMap_nil,
    List.cons_append, List.nil_append, List.mem_cons, List.not_mem_nil, or_false, OperatorRule.mk.injEq,
    OperatorRule.subscript] at h
  simpa using h

end TypedScript
