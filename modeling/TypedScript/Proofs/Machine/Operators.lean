/-
The rules for the types of operators and the machine's operators. The rules name an operator by its text and the machine
by an instruction. A text has rules just if there is an instruction for it; operands that have the types of a rule make
the instruction give a value of the rule's type, or divide by zero; and where numbers, texts and truth values are
combined by an operator other than a comparison for equality, whatever the machine gives a value for some rule allows.

- `BinaryOp.ofText?_eq_some_iff`: the operators and their texts.
- `BinaryOp.takes_of_apply`: what an operator that gives a value was given.
- `Run.execute_binary`, `Run.execute_subscript`: one instruction on two operands.
- `operators_agree`: the rules and the machine agree.
-/
import TypedScript.Proofs.Machine.Steps
import TypedScript.Proofs.Machine.Types

namespace TypedScript

/-! ## Texts -/

/-- the types of numbers, texts and truth values -/
def Ty.basic : List Ty := [.int, .str, .bool]

theorem Ty.int_mem_basic : .int ∈ basic := by simp [basic]

theorem Ty.str_mem_basic : .str ∈ basic := by simp [basic]

theorem Ty.bool_mem_basic : .bool ∈ basic := by simp [basic]

/-- the operators that calculate, by their texts -/
def OperatorRule.arithmetic : List String := ["+", "-", "*", "/", "%"]

/-- the operators that compare by size -/
def OperatorRule.ordering : List String := ["<", "<=", ">", ">="]

/-- the operators on truth values -/
def OperatorRule.logical : List String := ["&&", "||"]

/-- the instruction for an operator's text -/
def Instruction.ofOperator? (operator : String) : Option Instruction :=
  if operator = OperatorRule.subscript then some .subscript else (BinaryOp.ofText? operator).map .binary

variable {operator : String} {left right ty : Ty}

namespace BinaryOp

theorem ofText?_of_mem : ∀ e ∈ spellings, ofText? e.1 = some e.2 := by decide

theorem ofText?_eq_some_iff {op : BinaryOp} : ofText? operator = some op ↔ (operator, op) ∈ spellings := by
  constructor
  · intro h
    obtain ⟨before, after, heq, _⟩ := List.lookup_eq_some_iff.1 h
    rw [heq]
    exact List.mem_append_right before List.mem_cons_self
  · intro h
    exact ofText?_of_mem _ h

theorem text_of_divides : ∀ e ∈ spellings, e.2 ∈ [divide, modulo] → e.1 = "/" ∨ e.1 = "%" := by decide

end BinaryOp

/-- the rules are for the machine's operators and for subscripts, and every operator of the machine has one -/
theorem OperatorRule.exists_operator_iff (h : operator ≠ subscript) :
    (∃ rule ∈ all, rule.operator = operator) ↔ ∃ op, BinaryOp.ofText? operator = some op := by
  have hrules : ∀ rule ∈ all, rule.operator = subscript ∨ (BinaryOp.ofText? rule.operator).isSome := by decide
  have hspellings : ∀ e ∈ BinaryOp.spellings, ∃ rule ∈ all, rule.operator = e.1 := by decide
  constructor
  · rintro ⟨rule, hmem, rfl⟩
    exact Option.isSome_iff_exists.1 ((hrules rule hmem).resolve_left h)
  · rintro ⟨op, hop⟩
    exact hspellings _ (BinaryOp.ofText?_eq_some_iff.1 hop)

/-- an operator is unknown just if no rule names it -/
theorem resolveOperator_unknown_iff :
    resolveOperator operator left right = .error .unknown ↔ ¬ ∃ rule ∈ OperatorRule.all, rule.operator = operator := by
  have hempty : (OperatorRule.all.filter fun rule => rule.operator = operator).isEmpty = true ↔
      ¬ ∃ rule ∈ OperatorRule.all, rule.operator = operator := by
    rw [List.isEmpty_iff, List.filter_eq_nil_iff]
    simp
  rw [← hempty]
  unfold resolveOperator
  dsimp only
  split
  · next rule hfind =>
    have hmem := List.mem_of_find?_eq_some hfind
    refine ⟨fun h => (nomatch h), fun h => ?_⟩
    rw [List.isEmpty_iff.1 h] at hmem
    cases hmem
  · split <;> simp_all

/-- what an operator's text makes of two numbers, two texts, two operands of one type and two truth values -/
theorem resolveOperator_spelt : ∀ e ∈ BinaryOp.spellings,
    (e.2 ∈ [.add, .subtract, .multiply, .divide, .modulo] ++ [.less, .lessEquals, .greater, .greaterEquals] →
      (resolveOperator e.1 .int .int).isOk) ∧
    (e.2 = .add → (resolveOperator e.1 .str .str).isOk) ∧
    (e.2 ∈ [.equals, .notEquals] → ∀ ty ∈ Ty.basic, (resolveOperator e.1 ty ty).isOk) ∧
    (e.2 ∈ [.and, .or] → (resolveOperator e.1 .bool .bool).isOk) := by decide

/-- operands of basic types that an operator takes are allowed by a rule -/
theorem resolveOperator_of_takes {op : BinaryOp} (hop : BinaryOp.ofText? operator = some op) (hleft : left ∈ Ty.basic)
    (h : op.Takes left right ty) : ∃ result, resolveOperator operator left right = .ok result := by
  obtain ⟨hnumber, htext, hequality, hlogic⟩ := resolveOperator_spelt _ (BinaryOp.ofText?_eq_some_iff.1 hop)
  have hok : (resolveOperator operator left right).isOk = true := by
    cases h with
    | number hmem => exact hnumber (List.mem_append_left _ hmem)
    | text => exact htext rfl
    | order hmem => exact hnumber (List.mem_append_right _ hmem)
    | equality _ hmem => exact hequality hmem _ hleft
    | logic hmem => exact hlogic hmem
  cases hresult : resolveOperator operator left right with
  | error e =>
    rw [hresult] at hok
    cases hok
  | ok result => exact ⟨result, rfl⟩

/-! ## Values -/

namespace Value

variable {φ : Type} {made : Signature → φ → Prop} {known : Builtin → Prop} {v : Value φ}

/-- the basic type of a value -/
def basic? : Value φ → Option Ty
  | int _ => some .int
  | str _ => some .str
  | bool _ => some .bool
  | _ => Option.none

theorem has_iff_basic (h : ty ∈ Ty.basic) : v.Has made known ty ↔ v.basic? = some ty := by
  simp only [Ty.basic, List.mem_cons, List.not_mem_nil, or_false] at h
  rcases h with rfl | rfl | rfl
  · rw [has_int]
    cases v <;> simp [basic?, Ty.int, Ty.str, Ty.bool]
  · rw [has_str]
    cases v <;> simp [basic?, Ty.int, Ty.str, Ty.bool]
  · rw [has_bool]
    cases v <;> simp [basic?, Ty.int, Ty.str, Ty.bool]

theorem eq_int_of_asInt {n : Int64} (h : v.asInt = .ok n) : v = .int n := by
  cases v with
  | int value =>
    obtain rfl : value = n := Except.ok.inj h
    rfl
  | _ => cases h

theorem eq_bool_of_asBool {b : Bool} (h : v.asBool = .ok b) : v = .bool b := by
  cases v with
  | bool value =>
    obtain rfl : value = b := Except.ok.inj h
    rfl
  | _ => cases h

end Value

namespace BinaryOp

variable {φ : Type} {op : BinaryOp} {v w u : Value φ}

/-- what two operands come to as numbers, they are numbers -/
theorem of_ints {result : Except RuntimeFault (Value φ)} (h : op.ints v w = result)
    (hresult : ∀ wanted given, result ≠ .error (.wrongOperand wanted given)) :
    ∃ a b, v = .int a ∧ w = .int b ∧ op.onInts a b = result := by
  unfold ints at h
  cases hv : v.asInt with
  | error fault =>
    rw [hv] at h
    exact absurd h.symm (Value.asInt_fault hv ▸ hresult _ _)
  | ok a =>
    cases hw : w.asInt with
    | error fault =>
      rw [hv, hw] at h
      exact absurd h.symm (Value.asInt_fault hw ▸ hresult _ _)
    | ok b =>
      rw [hv, hw] at h
      exact ⟨a, b, Value.eq_int_of_asInt hv, Value.eq_int_of_asInt hw, h⟩

/-- what two operands come to under an operator on truth values, they are truth values -/
theorem of_bools {result : Except RuntimeFault (Value φ)} (hop : op ∈ [and, or]) (h : op.apply v w = result)
    (hresult : ∀ wanted given, result ≠ .error (.wrongOperand wanted given)) :
    ∃ a b c, v = .bool a ∧ w = .bool b ∧ result = .ok (.bool c) := by
  have hbools : ∃ f : Bool → Bool → Bool,
      op.apply v w = (do let a ← v.asBool; let b ← w.asBool; return .bool (f a b)) := by
    simp only [List.mem_cons, List.not_mem_nil, or_false] at hop
    rcases hop with rfl | rfl
    · exact ⟨(· && ·), rfl⟩
    · exact ⟨(· || ·), rfl⟩
  obtain ⟨f, hf⟩ := hbools
  rw [hf] at h
  cases hv : v.asBool with
  | error fault =>
    rw [hv] at h
    exact absurd h.symm (Value.asBool_fault hv ▸ hresult _ _)
  | ok a =>
    cases hw : w.asBool with
    | error fault =>
      rw [hv, hw] at h
      exact absurd h.symm (Value.asBool_fault hw ▸ hresult _ _)
    | ok b =>
      rw [hv, hw] at h
      exact ⟨a, b, f a b, Value.eq_bool_of_asBool hv, Value.eq_bool_of_asBool hw, h.symm⟩

/-- the operators on numbers look at their operands as numbers, but for the sum of two texts -/
theorem apply_eq_ints
    (hop : op ∈ [add, subtract, multiply, divide, modulo] ++ [less, lessEquals, greater, greaterEquals])
    (v w : Value φ) : (op = add ∧ ∃ a b, v = .str a ∧ w = .str b) ∨ op.apply v w = op.ints v w := by
  simp only [List.cons_append, List.nil_append, List.mem_cons, List.not_mem_nil, or_false] at hop
  rcases hop with rfl | rfl | rfl | rfl | rfl | rfl | rfl | rfl | rfl
  · cases v with
    | str a =>
      cases w with
      | str b => exact Or.inl ⟨rfl, a, b, rfl, rfl⟩
      | _ => exact Or.inr rfl
    | _ => exact Or.inr rfl
  all_goals exact Or.inr rfl

theorem kinds (op : BinaryOp) : op ∈ [equals, notEquals] ∨ op ∈ [and, or] ∨
    op ∈ [add, subtract, multiply, divide, modulo] ++ [less, lessEquals, greater, greaterEquals] := by
  cases op <;> decide

/-- what an operator that gives a value was given, comparisons for equality apart -/
theorem takes_of_apply (hop : op ∉ [equals, notEquals]) (h : op.apply v w = .ok u) :
    ∃ left ∈ Ty.basic, ∃ right ∈ Ty.basic, ∃ ty, op.Takes left right ty ∧ v.basic? = some left ∧
    w.basic? = some right := by
  rcases (kinds op).resolve_left hop with hlogic | hnumbers
  · obtain ⟨a, b, _, rfl, rfl, _⟩ := of_bools hlogic h fun _ _ h => nomatch h
    exact ⟨.bool, Ty.bool_mem_basic, .bool, Ty.bool_mem_basic, .bool, .logic hlogic, rfl, rfl⟩
  rcases apply_eq_ints hnumbers v w with ⟨rfl, a, b, rfl, rfl⟩ | hints
  · exact ⟨.str, Ty.str_mem_basic, .str, Ty.str_mem_basic, .str, .text, rfl, rfl⟩
  rw [hints] at h
  obtain ⟨a, b, rfl, rfl, _⟩ := of_ints h fun _ _ h => nomatch h
  rcases List.mem_append.1 hnumbers with hnumber | horder
  · exact ⟨.int, Ty.int_mem_basic, .int, Ty.int_mem_basic, .int, .number hnumber, rfl, rfl⟩
  · exact ⟨.int, Ty.int_mem_basic, .int, Ty.int_mem_basic, .bool, .order horder, rfl, rfl⟩

/-- only a division by zero is refused as one -/
theorem of_divisionByZero (h : op.apply v w = .error .divisionByZero) : op ∈ [divide, modulo] ∧ w = .int 0 := by
  rcases kinds op with hequality | hlogic | hnumbers
  · simp only [List.mem_cons, List.not_mem_nil, or_false] at hequality
    rcases hequality with rfl | rfl
    · cases h
    · cases h
  · obtain ⟨_, _, _, _, _, hresult⟩ := of_bools hlogic h fun _ _ h => nomatch h
    cases hresult
  rcases apply_eq_ints hnumbers v w with ⟨rfl, a, b, rfl, rfl⟩ | hints
  · cases h
  rw [hints] at h
  obtain ⟨a, b, rfl, rfl, honInts⟩ := of_ints h fun _ _ h => nomatch h
  have hzero (hzero : b ≠ 0) : (op.onInts a b : Except RuntimeFault (Value φ)) ≠ .error .divisionByZero := by
    cases op <;> simp [onInts, hzero, wrongOperand]
  obtain rfl : b = 0 := by
    by_contra hne
    exact hzero hne honInts
  refine ⟨?_, rfl⟩
  cases op with
  | divide => decide
  | modulo => decide
  | _ => cases honInts

end BinaryOp

/-! ## Instructions -/

namespace Run

variable {σ : Type}

/-- an operator's instruction gives what the operator gives for the two uppermost operands -/
theorem execute_binary (host : Host σ) (frame : FrameId) (op : BinaryOp) (v w : Value)
    (stack : Operands) (m : Machine σ) :
    execute host frame (w :: v :: stack) (.binary op) m =
      match op.apply v w with
      | .ok u => .ok (.next (u :: stack)) m
      | .error fault => .error (.fault fault) m := by
  rw [execute, pop_bind]
  dsimp only
  rw [pop_bind]
  dsimp only
  rw [ofExcept_bind]
  cases op.apply v w <;> rfl

theorem execute_subscript (host : Host σ) (frame : FrameId) (target index : Value) (stack : Operands) (m : Machine σ) :
    execute host frame (index :: target :: stack) .subscript m =
      match target.subscript index with
      | .ok u => .ok (.next (u :: stack)) m
      | .error fault => .error (.fault fault) m := by
  rw [execute, pop_bind]
  dsimp only
  rw [pop_bind]
  dsimp only
  rw [ofExcept_bind]
  cases target.subscript index <;> rfl

end Run

/-! ## Agreement -/

section

variable {σ : Type} {made : Signature → Template → Prop} {known : Builtin → Prop}

theorem Instruction.ofOperator?_binary {op : BinaryOp} (h : BinaryOp.ofText? operator = some op) :
    ofOperator? operator = some (.binary op) := by
  have hne : operator ≠ OperatorRule.subscript := by
    rintro rfl
    cases h
  rw [ofOperator?, if_neg hne, h, Option.map_some]

/-- a text that a rule names is that of subscripts or of an operator of the machine -/
theorem Instruction.exists_ofOperator {rule : OperatorRule} (h : rule ∈ OperatorRule.all) :
    (rule.operator = OperatorRule.subscript ∧ ofOperator? rule.operator = some .subscript) ∨
      ∃ op, BinaryOp.ofText? rule.operator = some op ∧ ofOperator? rule.operator = some (.binary op) := by
  by_cases hsubscript : rule.operator = OperatorRule.subscript
  · exact Or.inl ⟨hsubscript, if_pos hsubscript⟩
  · obtain ⟨op, hop⟩ := (OperatorRule.exists_operator_iff hsubscript).1 ⟨rule, h, rfl⟩
    exact Or.inr ⟨op, hop, ofOperator?_binary hop⟩

/-- operands of a rule's types make its instruction give a value of its result's type, or divide by zero -/
theorem Run.execute_rule (host : Host σ) {v w : Value} (frame : FrameId) (stack : Operands) (m : Machine σ)
    (hrule : (⟨operator, left, right, ty⟩ : OperatorRule) ∈ OperatorRule.all) {i : Instruction}
    (hi : Instruction.ofOperator? operator = some i) (hv : v.Has made known left) (hw : w.Has made known right) :
    (∃ u, execute host frame (w :: v :: stack) i m = .ok (.next (u :: stack)) m ∧ u.Has made known ty) ∨
      ((operator = "/" ∨ operator = "%") ∧ w = .int 0 ∧
        execute host frame (w :: v :: stack) i m = .error (.fault .divisionByZero) m) := by
  rcases Instruction.exists_ofOperator hrule with ⟨hsubscript, hinstruction⟩ | ⟨op, hop, hinstruction⟩
  · obtain rfl : .subscript = i := Option.some.inj (hinstruction.symm.trans hi)
    dsimp only at hsubscript
    subst hsubscript
    obtain ⟨rfl, rfl, rfl⟩ := OperatorRule.of_subscript hrule
    obtain ⟨u, hu, hty⟩ := Value.subscript_has_text hv hw
    refine Or.inl ⟨u, ?_, hty⟩
    rw [execute_subscript, hu]
  · obtain rfl : .binary op = i := Option.some.inj (hinstruction.symm.trans hi)
    rw [execute_binary]
    rcases Value.apply_has (OperatorRule.takes hrule hop) hv hw with ⟨u, hu, hty⟩ | hzero
    · exact Or.inl ⟨u, by rw [hu], hty⟩
    · obtain ⟨hdivides, hw⟩ := BinaryOp.of_divisionByZero hzero
      refine Or.inr ⟨?_, hw, by rw [hzero]⟩
      exact BinaryOp.text_of_divides _ (BinaryOp.ofText?_eq_some_iff.1 hop) hdivides

/-- The rules and the machine agree. Where a rule is found for operands without `Any` and without the error type, there
is an instruction for the operator, and with any two values of those types on top of the stack it leaves a value of the
type found in their place, or it is a division whose divisor is zero. A text other than that of subscripts is unknown
just if the machine has no operator for it. And where an operator that calculates, compares by size or combines truth
values gives a value for two numbers, texts or truth values, a rule is found for their types. -/
theorem operators_agree (host : Host σ) (made : Signature → Template → Prop) (known : Builtin → Prop) :
    (∀ operator left right ty, left.isGenuine = true → right.isGenuine = true →
      resolveOperator operator left right = .ok ty → ∃ i, Instruction.ofOperator? operator = some i ∧
        ∀ frame stack m (v w : Value), v.Has made known left → w.Has made known right →
          (∃ u, Run.execute host frame (w :: v :: stack) i m = .ok (.next (u :: stack)) m ∧ u.Has made known ty) ∨
            ((operator = "/" ∨ operator = "%") ∧ w = .int 0 ∧
              Run.execute host frame (w :: v :: stack) i m = .error (.fault .divisionByZero) m)) ∧
    (∀ operator left right, operator ≠ OperatorRule.subscript →
      (resolveOperator operator left right = .error .unknown ↔ BinaryOp.ofText? operator = none)) ∧
    (∀ operator ∈ OperatorRule.arithmetic ++ OperatorRule.ordering ++ OperatorRule.logical,
      ∃ i, Instruction.ofOperator? operator = some i ∧ ∀ left ∈ Ty.basic, ∀ right ∈ Ty.basic,
        ∀ frame stack m (v w : Value) flow m', v.Has made known left → w.Has made known right →
          Run.execute host frame (w :: v :: stack) i m = .ok flow m' →
            ∃ ty, resolveOperator operator left right = .ok ty) := by
  refine ⟨fun operator left right ty hleft hright hresolve => ?_, fun operator left right hne => ?_,
    fun operator hoperator => ?_⟩
  · have hrule := rule_of_resolveOperator (Ty.hasAny_of_isGenuine hleft) (Ty.hasAny_of_isGenuine hright) hresolve
    obtain ⟨i, hi⟩ : ∃ i, Instruction.ofOperator? operator = some i := by
      rcases Instruction.exists_ofOperator hrule with ⟨_, hi⟩ | ⟨op, _, hi⟩
      · exact ⟨_, hi⟩
      · exact ⟨_, hi⟩
    refine ⟨i, hi, ?_⟩
    intro frame stack m v w hv hw
    exact Run.execute_rule host frame stack m hrule hi hv hw
  · rw [resolveOperator_unknown_iff, OperatorRule.exists_operator_iff hne, ← Option.isSome_iff_exists,
      Option.not_isSome_iff_eq_none]
  · have htexts : ∀ operator ∈ OperatorRule.arithmetic ++ OperatorRule.ordering ++ OperatorRule.logical,
        ∃ e ∈ BinaryOp.spellings, e.1 = operator ∧ e.2 ∉ [.equals, .notEquals] := by decide
    obtain ⟨⟨_, op⟩, hmem, rfl, hop⟩ := htexts operator hoperator
    have htext := BinaryOp.ofText?_of_mem _ hmem
    refine ⟨_, Instruction.ofOperator?_binary htext, ?_⟩
    intro left hleft right hright frame stack m v w flow m' hv hw hrun
    rw [Run.execute_binary] at hrun
    cases happly : op.apply v w with
    | error fault =>
      rw [happly] at hrun
      cases hrun
    | ok u =>
      obtain ⟨left', hleft', right', hright', ty, htakes, hv', hw'⟩ := BinaryOp.takes_of_apply hop happly
      -- the types that the operator took are the types that the operands were said to have
      rw [Value.has_iff_basic hleft] at hv
      rw [Value.has_iff_basic hright] at hw
      obtain rfl : left = left' := Option.some.inj (hv.symm.trans hv')
      obtain rfl : right = right' := Option.some.inj (hw.symm.trans hw')
      exact resolveOperator_of_takes htext hleft htakes

/-- a host that has nothing to say -/
def mute : Host Unit := ⟨fun _ _ memory => (.ok .none, memory), .empty⟩

/-- seven by two, which has a rule, and the sum of two texts, which has one because the machine joins them -/
theorem operators_agree_division : resolveOperator "/" .int .int = .ok .int ∧
    (∃ i u, Instruction.ofOperator? "/" = some i ∧ Run.execute mute 0 [.int 2, .int 7] i (.new mute 1 ()) =
      .ok (.next [u]) (.new mute 1 ()) ∧ u.Has (fun _ _ => False) (fun _ => False) .int) ∧
    ∃ ty, resolveOperator "+" .str .str = .ok ty := by
  obtain ⟨hsound, _, hcomplete⟩ := operators_agree mute (fun _ _ => False) fun _ => False
  have hresolve : resolveOperator "/" .int .int = .ok .int := rfl
  obtain ⟨i, hi, hrun⟩ := hsound _ _ _ _ rfl rfl hresolve
  obtain ⟨j, hj, haccepts⟩ := hcomplete "+" (by decide)
  obtain rfl : .binary .add = j := Option.some.inj hj
  refine ⟨hresolve, ?_, ?_⟩
  · rcases hrun 0 [] (.new mute 1 ()) (.int 7) (.int 2) (Value.has_int.2 ⟨7, rfl⟩) (Value.has_int.2 ⟨2, rfl⟩) with
      ⟨u, hu, hty⟩ | ⟨_, hzero, _⟩
    · exact ⟨i, u, hi, hu, hty⟩
    · have hne : (2 : Int64) ≠ 0 := by decide
      exact absurd (Value.int.inj hzero) hne
  · exact haccepts .str Ty.str_mem_basic .str Ty.str_mem_basic 0 [] (.new mute 1 ()) (.str "a") (.str "b") _ _
      (Value.has_str.2 ⟨"a", rfl⟩) (Value.has_str.2 ⟨"b", rfl⟩) rfl

end

end TypedScript
