/-
Heights of the stack. `Code.Way` follows every way through code, whatever the conditions turn out to be, and counts the
operands. The code of an expression raises the height by one and the code of a statement leaves it as it is, whichever
way is taken; a way that leaves the body does so with one value at a `return` and with none at the end of a module.

The heights are found by noting at each place its height (`Code.Levels`); no way comes to a place with another height
than its level.

- `Bound.Expr.levels`, `Bound.Stmt.levels`: the code of expressions and statements has levels.
- `Code.Levels.balanced`: what has levels is balanced.
- `Bound.Function.balanced`: so are the templates of bound trees, all those nested in them included.
-/
import TypedScript.Proofs.Bound.Annotated
import TypedScript.Proofs.Machine.Ends

namespace TypedScript

/-! ## Ways through code -/

namespace Code

/-- the ways through code that stands at `start` and is entered there with `base` operands: the places that they come
to, and how many operands there are then -/
inductive Way (start : Nat) (code : Code) (base : Nat) : (place height : Nat) → Prop
  | enter : Way start code base start base
  | step {k height next : Nat} {i : Instruction} (way : Way start code base (start + k) height)
      (found : code[k]? = some i) (leads : next ∈ i.leads (start + k)) :
      Way start code base next (height - i.takes + i.gives)

/-- code that stands at `start`, is entered with `base` operands and goes on behind itself with `top` of them: each
place has one height, no instruction takes any of the `base` operands, and no way leads out of the code otherwise -/
structure Balanced (start base : Nat) (code : Code) (top : Nat) : Prop where
  unique : ∀ {place height height'}, Way start code base place height → Way start code base place height' →
    height = height'
  enough : ∀ {k height i}, Way start code base (start + k) height → code[k]? = some i → base + i.takes ≤ height
  giveBack : ∀ {k height}, Way start code base (start + k) height → code[k]? = some .giveBack → height = base + 1
  halt : ∀ {k height}, Way start code base (start + k) height → code[k]? = some .halt → height = base
  inside : ∀ {place height}, Way start code base place height → start ≤ place ∧ place ≤ start + code.length
  behind : ∀ {height}, Way start code base (start + code.length) height → height = top

end Code

namespace Template

variable {t : Template}

/-- the ways through the code of a template, which is entered with an empty stack -/
def Way (t : Template) (place height : Nat) : Prop := Code.Way 0 t.code 0 place height

/-- the heights in a template: each place has one, no instruction takes more operands than there are, at a `return`
there is one and at the end of a module none, and no way leads beyond the last instruction -/
structure Balanced (t : Template) : Prop where
  unique : ∀ {place height height'}, t.Way place height → t.Way place height' → height = height'
  enough : ∀ {place height i}, t.Way place height → t.code[place]? = some i → i.takes ≤ height
  giveBack : ∀ {place height}, t.Way place height → t.code[place]? = some .giveBack → height = 1
  halt : ∀ {place height}, t.Way place height → t.code[place]? = some .halt → height = 0
  inside : ∀ {place height}, t.Way place height → place < t.code.length

/-- no way through the code of a function comes to the last two instructions, which give nothing back: on every way
there is a `return` before -/
def Returns (t : Template) : Prop := ∀ {place height}, t.Way place height → place + 2 < t.code.length

end Template

/-! ## Levels -/

namespace Code

variable {floor start base top : Nat} {code : Code} {i : Instruction}

/-- heights of the stack: an instruction leaves `floor` operands alone; at a `return` there is one more than these, and
at the end of a module there are no more -/
def heights (floor : Nat) : Rules Nat where
  here i height := floor + i.takes ≤ height ∧ (i = .giveBack → height = floor + 1) ∧ (i = .halt → height = floor)
  leads i height next := next = height - i.takes + i.gives

/-- the places of code that stands at `start` can be given levels, from `base` at its start to `top` behind it -/
abbrev Levels (floor start base : Nat) (code : Code) (top : Nat) : Prop := Annotated (heights floor) start base code top

/-- an instruction after which the body goes on with the next one -/
theorem levels_onward (hleads : i.leads start = [start + 1]) (henough : floor + i.takes ≤ base)
    (htop : top = base - i.takes + i.gives) : Levels floor start base [i] top := by
  refine annotated_onward hleads ⟨henough, fun hi => ?_, fun hi => ?_⟩ htop
  · rw [hi] at hleads
    cases hleads
  · rw [hi] at hleads
    cases hleads

theorem levels_giveBack : Levels floor start (floor + 1) [.giveBack] top :=
  annotated_leaving rfl ⟨Nat.le_refl _, fun _ => rfl, fun h => nomatch h⟩

theorem levels_halt : Levels floor start floor [.halt] top :=
  annotated_leaving rfl ⟨Nat.le_refl _, fun h => (nomatch h), fun _ => rfl⟩

/-- a condition in front of code that leaves the height as it is -/
theorem Levels.cond (hfloor : floor ≤ base) (h : Levels floor (start + 1) base code base) :
    Levels floor start (base + 1) (.jumpIfFalse (start + 1 + code.length) :: code) base :=
  h.branch (fun _ => ⟨Nat.succ_le_succ hfloor, fun h => (nomatch h), fun h => nomatch h⟩) fun _ => rfl

/-- no way comes to a place with another height than its level -/
theorem Levels.balanced (h : Levels base start base code top) : Balanced start base code top := by
  obtain ⟨f, hstart, htop, hsuits⟩ := h
  have hlevel {place height : Nat} (hway : Way start code base place height) :
      height = f place ∧ start ≤ place ∧ place ≤ start + code.length := by
    induction hway with
    | enter => exact ⟨hstart.symm, Nat.le_refl _, Nat.le_add_right _ _⟩
    | @step k height next i _ found leads ih =>
      obtain ⟨hheight, _⟩ := ih
      obtain ⟨hlt, hle, hnext⟩ := (hsuits k i found).leads next leads
      exact ⟨by rw [show f next = _ from hnext, hheight], by omega, hle⟩
  refine ⟨fun h h' => (hlevel h).1.trans (hlevel h').1.symm, fun {k height i} h hi => ?_, fun {k height} h hi => ?_,
    fun {k height} h hi => ?_, fun h => (hlevel h).2, fun h => (hlevel h).1.trans htop⟩
  · rw [(hlevel h).1]
    exact (hsuits k i hi).here.1
  · rw [(hlevel h).1]
    exact (hsuits k _ hi).here.2.1 rfl
  · rw [(hlevel h).1]
    exact (hsuits k _ hi).here.2.2 rfl

/-- no way leads behind code that has levels whatever is taken for the height behind it -/
theorem Way.inside {code' : Code} {place height : Nat} (hway : Way start (code ++ code') base place height)
    (h : ∀ top, Levels floor start base code top) : place < start + code.length := by
  obtain ⟨f, hf, htop, hsuits⟩ := h 0
  obtain ⟨g, hg, htop', hsuits'⟩ := h 1
  -- there would be two heights at once
  have hbehind {place : Nat} (hle : place ≤ start + code.length) (hsame : f place = g place) :
      place < start + code.length := by
    refine Nat.lt_of_le_of_ne hle fun heq => ?_
    rw [heq, htop, htop'] at hsame
    cases hsame
  have hlevel : place < start + code.length ∧ height = f place ∧ height = g place := by
    induction hway with
    | enter => exact ⟨hbehind (Nat.le_add_right _ _) (hf.trans hg.symm), hf.symm, hg.symm⟩
    | @step k height next i _ found leads ih =>
      obtain ⟨hlt, hheight, hheight'⟩ := ih
      rw [List.getElem?_append_left (by omega)] at found
      obtain ⟨_, hle, hnext⟩ := (hsuits k i found).leads next leads
      obtain ⟨_, _, hnext'⟩ := (hsuits' k i found).leads next leads
      replace hnext : f next = height - i.takes + i.gives := hheight ▸ hnext
      replace hnext' : g next = height - i.takes + i.gives := hheight' ▸ hnext'
      exact ⟨hbehind hle (hnext.trans hnext'.symm), hnext.symm, hnext'.symm⟩
  exact hlevel.1

end Code

/-- the heights in a template whose code has levels, whatever is taken for the height behind it -/
theorem Template.balanced_of_levels {t : Template} (h : ∀ top, Code.Levels 0 0 0 t.code top) : t.Balanced := by
  have hbalanced := (h 0).balanced
  refine ⟨hbalanced.unique, fun {place height i} hway hi => ?_, fun {place height} hway hi => ?_,
    fun {place height} hway hi => ?_, fun {place height} hway => ?_⟩
  · rw [← Nat.zero_add place] at hway
    have henough := hbalanced.enough hway hi
    rwa [Nat.zero_add] at henough
  · rw [← Nat.zero_add place] at hway
    exact hbalanced.giveBack hway hi
  · rw [← Nat.zero_add place] at hway
    exact hbalanced.halt hway hi
  · unfold Way at hway
    rw [← List.append_nil t.code] at hway
    have hlt := hway.inside h
    rwa [Nat.zero_add] at hlt

/-! ## Bound trees -/

namespace Bound

open Code

theorem levels_fetches (floor start base : Nat) (hfloor : floor ≤ base) (module : String)
    (names : List (String × Cell)) : Levels floor start base (fetches module names) base := by
  induction names generalizing start with
  | nil => exact annotated_nil
  | cons item names ih =>
    have hload : Levels floor start base [.loadImport module item.1] (base + 1) := levels_onward rfl hfloor rfl
    have hstore : Levels floor (start + 1) (base + 1) [.store item.2] base :=
      levels_onward rfl (Nat.succ_le_succ hfloor) rfl
    exact hload.append (hstore.append (ih _))

theorem levels_reserves (floor start base : Nat) (hfloor : floor ≤ base) (cells : List Cell) :
    Levels floor start base (cells.map .reserve) base := by
  induction cells generalizing start with
  | nil => exact annotated_nil
  | cons cell cells ih =>
    have hreserve : Levels floor start base [.reserve cell] base := levels_onward rfl hfloor rfl
    exact hreserve.append (ih _)

theorem levels_ending (floor start : Nat) (isModule : Bool) (top : Nat) :
    Levels floor start floor (Compile.ending isModule) top := by
  cases isModule with
  | true => exact levels_halt
  | false =>
    have hpush : Levels floor start floor [.push .none] (floor + 1) := levels_onward rfl (Nat.le_refl _) rfl
    exact hpush.append Code.levels_giveBack

mutual

/-- the code of an expression raises the height by one -/
theorem Expr.levels {floor base : Nat} (start : Nat) (hfloor : floor ≤ base) (e : Expr) :
    Levels floor start base e.code (base + 1) := by
  cases e with
  | number value => exact levels_onward rfl hfloor rfl
  | text value => exact levels_onward rfl hfloor rfl
  | truth value => exact levels_onward rfl hfloor rfl
  | read cell => exact levels_onward rfl hfloor rfl
  | self => exact levels_onward rfl hfloor rfl
  | function f => exact levels_onward rfl hfloor rfl
  | list items =>
    refine (Expr.levelsOf start hfloor items).append (levels_onward rfl ?_ ?_)
    · exact Nat.add_le_add_right hfloor _
    · exact congrArg (· + 1) (Nat.add_sub_cancel base items.length).symm
  | call callee arguments =>
    have hgiven := Expr.levelsOf start hfloor arguments
    have hoperands := hgiven.append (callee.levels _ (Nat.le_add_right_of_le hfloor))
    refine hoperands.append (levels_onward rfl ?_ ?_)
    · simp only [Instruction.takes]
      omega
    · simp only [Instruction.takes, Instruction.gives]
      omega
  | assign cell value =>
    have hstore (start : Nat) : Levels floor start (base + 1) [.store cell] base :=
      levels_onward rfl (Nat.succ_le_succ hfloor) rfl
    exact (value.levels start hfloor).append ((hstore _).append (levels_onward rfl hfloor rfl))
  | binary op left right =>
    have hoperands := (left.levels start hfloor).append (right.levels _ (Nat.le_succ_of_le hfloor))
    exact hoperands.append (levels_onward rfl (Nat.add_le_add_right hfloor 2) rfl)
  | subscript target index =>
    have hoperands := (target.levels start hfloor).append (index.levels _ (Nat.le_succ_of_le hfloor))
    exact hoperands.append (levels_onward rfl (Nat.add_le_add_right hfloor 2) rfl)
termination_by structural e

/-- the code of expressions raises the height by one for each of them -/
theorem Expr.levelsOf {floor base : Nat} (start : Nat) (hfloor : floor ≤ base) (es : List Expr) :
    Levels floor start base (Expr.codeOf es) (base + es.length) := by
  cases es with
  | nil => exact annotated_nil
  | cons e es =>
    rw [show base + (e :: es).length = base + 1 + es.length from by rw [List.length_cons]; omega]
    exact (e.levels start hfloor).append (Expr.levelsOf _ (Nat.le_succ_of_le hfloor) es)
termination_by structural es

end

/-- whatever is taken for the height behind a `return`, no way leads there -/
theorem Stmt.levels_giveBack (start base : Nat) (value : Option Expr) (top : Nat) :
    Levels base start base ((Stmt.giveBack value).code start) top := by
  cases value with
  | none => exact levels_ending base start false top
  | some e => exact (e.levels start (Nat.le_refl _)).append Code.levels_giveBack

mutual

/-- the code of a statement leaves the height as it is -/
theorem Stmt.levels (start base : Nat) (s : Stmt) : Levels base start base (s.code start) base := by
  have hstore (start : Nat) (cell : Cell) : Levels base start (base + 1) [.store cell] base :=
    levels_onward rfl (Nat.le_refl _) rfl
  cases s with
  | cond condition body =>
    have hinner := Stmt.levelsOf (start + condition.code.length + 1) base body
    exact (condition.levels start (Nat.le_refl _)).append (hinner.cond (Nat.le_refl _))
  | declare cell value => exact (value.levels start (Nat.le_refl _)).append (hstore _ cell)
  | giveBack value => exact Stmt.levels_giveBack start base value base
  | eval e =>
    have hdrop : Levels base start base (e.code ++ [.pop]) base :=
      (e.levels start (Nat.le_refl _)).append (levels_onward rfl (Nat.le_refl _) rfl)
    cases e with
    | assign cell value => exact (value.levels start (Nat.le_refl _)).append (hstore _ cell)
    | _ => exact hdrop
  | use module names => exact levels_fetches base start base (Nat.le_refl _) module names
termination_by structural s

theorem Stmt.levelsOf (start base : Nat) (ss : List Stmt) : Levels base start base (Stmt.codeOf start ss) base := by
  cases ss with
  | nil => exact annotated_nil
  | cons s ss => exact (Stmt.levels start base s).append (Stmt.levelsOf _ base ss)
termination_by structural ss

end

/-- the code of a body has levels whatever is taken for the height behind it, for no way leads there -/
theorem Function.levels (isModule : Bool) (f : Function) (top : Nat) : Levels 0 0 0 (f.template isModule).code top := by
  obtain ⟨number, signature, params, locals, body⟩ := f
  have hslots : Levels 0 0 0 (locals.map .reserve) 0 := levels_reserves 0 0 0 (Nat.le_refl _) locals
  have hbody := Stmt.levelsOf (0 + (locals.map Instruction.reserve).length) 0 body
  rw [List.length_map, Nat.zero_add] at hbody
  refine (hslots.append ?_).append (levels_ending 0 _ isModule top)
  rw [List.length_map, Nat.zero_add]
  exact hbody

theorem Stmt.codeOf_append (start : Nat) (ss ss' : List Stmt) :
    Stmt.codeOf start (ss ++ ss') = Stmt.codeOf start ss ++
    Stmt.codeOf (start + (Stmt.codeOf start ss).length) ss' := by
  induction ss generalizing start with
  | nil => rfl
  | cons s ss ih =>
    rw [List.cons_append, Stmt.codeOf, ih, Stmt.codeOf, List.length_append, List.append_assoc, Nat.add_assoc]

/-- the code in front of a statement that stands directly in a body, behind some others -/
def Function.front (locals : List Cell) (before : List Stmt) : Code :=
  locals.map .reserve ++ Stmt.codeOf locals.length before

theorem Function.code_around (isModule : Bool) (number : Nat) (signature : Signature) (params locals : List Cell)
    (before behind : List Stmt) (s : Stmt) :
    (Function.template isModule ⟨number, signature, params, locals, before ++ s :: behind⟩).code =
      front locals before ++ (s.code (front locals before).length ++
        (Stmt.codeOf ((front locals before).length + (s.code (front locals before).length).length) behind ++
          Compile.ending isModule)) := by
  have hlength : (front locals before).length = locals.length + (Stmt.codeOf locals.length before).length := by
    rw [front, List.length_append, List.length_map]
  change locals.map .reserve ++ Stmt.codeOf locals.length (before ++ s :: behind) ++ _ = _
  rw [Stmt.codeOf_append, Stmt.codeOf, ← hlength, front]
  simp only [List.append_assoc]

/-- where a `return` stands in the body of a function, and not just inside of conditions,
every way comes to a `return` -/
theorem Function.returns {f : Function} {value : Option Expr} (h : .giveBack value ∈ f.body) :
    (f.template false).Returns := by
  obtain ⟨number, signature, params, locals, body⟩ := f
  obtain ⟨before, behind, rfl⟩ := List.append_of_mem h
  intro place height hway
  have hfront : Levels 0 0 0 (front locals before) 0 := by
    refine (levels_reserves 0 0 0 (Nat.le_refl _) locals).append ?_
    rw [List.length_map, Nat.zero_add]
    exact Stmt.levelsOf _ 0 before
  let code : Code := front locals before ++ (Stmt.giveBack value).code (front locals before).length
  have hcode (top : Nat) : Levels 0 0 0 code top := by
    refine hfront.append ?_
    rw [Nat.zero_add]
    exact Stmt.levels_giveBack _ 0 value top
  have hbody : (Function.template false ⟨number, signature, params, locals, before ++ .giveBack value :: behind⟩).code =
      code ++ (Stmt.codeOf code.length behind ++ Compile.ending false) := by
    rw [Function.code_around, show code.length = (front locals before).length + _ from List.length_append]
    simp only [code, List.append_assoc]
  unfold Template.Way at hway
  rw [hbody] at hway ⊢
  have hlt := hway.inside hcode
  have hrest : (Stmt.codeOf code.length behind ++ Compile.ending false).length =
      (Stmt.codeOf code.length behind).length + 2 := List.length_append
  rw [List.length_append, hrest]
  omega

/-- the template of a body is balanced -/
theorem Function.balanced (isModule : Bool) (f : Function) : (f.template isModule).Balanced :=
  Template.balanced_of_levels (f.levels isModule)

end Bound

end TypedScript
