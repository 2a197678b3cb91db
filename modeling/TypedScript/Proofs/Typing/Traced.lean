/-
The check of a module with a trace of what happens meanwhile: which type each expression is found to have, and what is
found wrong, with the types that are compared. Without its trace it is the check.

- `Complaint`: what can be found wrong; `Complaint.text` is the text of the diagnostic.
- `Traced.expr`, `Traced.stmt` and so on: the pieces of a check, traced.
- `Traced.untraced_expr`, `Traced.untraced_stmt`: each piece without its trace.
- `tracedModule_eq`: the check of a module without its trace.
-/
import TypedScript.Proofs.Typing.Module

namespace TypedScript

open Check (Place Record inQuotes)

/-- what the check finds wrong -/
inductive Complaint
  | undeclared (name : String)
  | selfOutside
  /-- a call of a function that gives nothing stands for a value -/
  | noValue
  | unknownOperator (operator : String) (left right : Ty)
  | operands (operator : String) (left right : Ty)
  | listIndex (target index : Ty)
  | subscript (target index : Ty)
  | arity (expected received : Nat)
  | argument (number : Nat) (expected received : Ty)
  | callee (ty : Ty)
  | notVariable
  | assigned (name : String) (ty value : Ty)
  | declared (name : String) (ty value : Ty)
  | outsideFunction
  | gaveNothing (expected : Ty)
  | gaveSomething (received : Ty)
  | gaveBack (expected received : Ty)
  | emptyList
  | element (expected received : Ty)
  | condition (received : Ty)
  | useNotAtTop
  | pubNotAtTop
  | unresolved (path : String)
  | notExported (name path : String)
  | alreadyDeclared (name : String)
  | alreadyExported (name : String)

namespace Complaint

/-- the text of the diagnostic -/
def text : Complaint → String
  | undeclared name => "'" ++ name ++ "' is not declared"
  | selfOutside => "'self' can only be used inside a function"
  | noValue => "expected a value, got 'Void'"
  | unknownOperator operator _ _ => "unknown operator '" ++ operator ++ "'"
  | operands operator left right =>
    "cannot apply '" ++ operator ++ "' to " ++ inQuotes left ++ " and " ++ inQuotes right
  | listIndex _ index => "expected list index of type 'Int', got " ++ inQuotes index
  | subscript target index => "cannot subscript " ++ inQuotes target ++ " with " ++ inQuotes index
  | arity expected received => "expected " ++ toString expected ++ " arguments, got " ++ toString received
  | argument number expected received =>
    "expected argument " ++ toString number ++ " to be " ++ inQuotes expected ++ ", got " ++ inQuotes received
  | callee ty => "cannot call function on type " ++ inQuotes ty
  | notVariable => Check.onlyVariables
  | assigned name ty value => "cannot assign " ++ inQuotes value ++ " to '" ++ name ++ "' of type " ++ inQuotes ty
  | declared name ty value =>
    "cannot declare '" ++ name ++ "' as " ++ inQuotes ty ++ " with a value of type " ++ inQuotes value
  | outsideFunction => "cannot return outside of a function"
  | gaveNothing expected => "expected to return " ++ inQuotes expected ++ ", got no value"
  | gaveSomething received => "expected no return value, got " ++ inQuotes received
  | gaveBack expected received => "expected to return " ++ inQuotes expected ++ ", got " ++ inQuotes received
  | emptyList => "cannot infer the element type of an empty list"
  | element expected received =>
    "expected list element of type " ++ inQuotes expected ++ ", got " ++ inQuotes received
  | condition received => "expected condition of type 'Bool', got " ++ inQuotes received
  | useNotAtTop => "'use' is only allowed at the top level of a module"
  | pubNotAtTop => Arena.exportNotAtTop
  | unresolved path => "module '" ++ path ++ "' was not resolved"
  | notExported name path => "'" ++ name ++ "' is not exported by '" ++ path ++ "'"
  | alreadyDeclared name => "'" ++ name ++ "' is already declared"
  | alreadyExported name => "'" ++ name ++ "' is already exported"

/-- the types that do not fit -/
def types : Complaint → List Ty
  | unknownOperator _ left right | operands _ left right => [left, right]
  | listIndex target index | subscript target index => [target, index]
  | argument _ expected received | gaveBack expected received | element expected received => [expected, received]
  | assigned _ ty value | declared _ ty value => [ty, value]
  | callee ty | gaveNothing ty | gaveSomething ty | condition ty => [ty]
  | undeclared _ | selfOutside | noValue | arity _ _ | notVariable | outsideFunction | emptyList | useNotAtTop
  | pubNotAtTop | unresolved _ | notExported _ _ | alreadyDeclared _ | alreadyExported _ => []

end Complaint

/-- what happens while a module is checked -/
inductive Event
  /-- an expression is found to have a type -/
  | typed (e : Expr) (ty : Ty)
  | complaint (position : Position) (c : Complaint)

namespace Event

def diagnostic? : Event → Option Diagnostic
  | typed _ _ => none
  | complaint position c => some ⟨position, c.text⟩

def expr? : Event → Option Expr
  | typed e _ => some e
  | complaint _ _ => none

end Event

/-- what a piece of checking gives, what has been built when it is over, and what happened meanwhile -/
structure Outcome (α : Type) where
  result : α
  record : Record
  events : List Event

/-- checking, with all that has been built so far at hand, and with a trace -/
def Traced (α : Type) : Type := Record → Outcome α

namespace Traced

variable {α β : Type}

instance : Monad Traced where
  pure a := fun r => ⟨a, r, []⟩
  bind t f := fun r =>
    let first := t r
    let second := f first.result first.record
    { second with events := first.events ++ second.events }

/-- a piece of checking during which nothing happens -/
def silent (x : Check α) : Traced α := fun r => ⟨(x r).1, (x r).2, []⟩

def complain (p : Place) (position : Position) (c : Complaint) : Traced Unit := fun r =>
  ⟨(), (Check.report p position c.text r).2, [.complaint position c]⟩

/-- complain and give the type of what failed -/
def refuse (p : Place) (position : Position) (c : Complaint) : Traced Ty := do
  complain p position c
  return .error

/-- an expression is found to have the type that is given -/
def typed (e : Expr) (t : Traced Ty) : Traced Ty := fun r =>
  { t r with events := (t r).events ++ [.typed e (t r).result] }

/-- a piece of checking that complains itself where it gives nothing -/
def complaining (position : Position) (x : Check α) (complaint? : Record → α → Option Complaint) : Traced α := fun r =>
  ⟨(x r).1, (x r).2, ((complaint? r (x r).1).map (Event.complaint position)).toList⟩

def newVariable (scope : ScopeId) (name : String) (ty : Ty) (position : Position) : Traced (Option Cell) :=
  complaining position (Check.newVariable scope name ty position) fun _ cell =>
    if cell.isNone then some (.alreadyDeclared name) else none

def newParameter (scope : ScopeId) (name : String) (ty : Ty) (position : Position) : Traced (Option Cell) :=
  complaining position (Check.newParameter scope name ty position) fun _ cell =>
    if cell.isNone then some (.alreadyDeclared name) else none

def addExport (scope : ScopeId) (name : String) (ty : Ty) (position : Position) : Traced Bool :=
  complaining position (Check.addExport scope name ty position) fun r added =>
    if added then none
    else if (r.arena.export? scope name).isSome then some (.alreadyExported name) else some .pubNotAtTop

/-! ## The check -/

def ident (p : Place) (name : String) (span : Span) : Traced Ty := do
  match (← silent get).arena.lookup? p.scope name with
  | some v => return v.ty
  | none => refuse p span.start (.undeclared name)

def selfReference (p : Place) (span : Span) : Traced Ty := do
  match (← silent get).arena.signature? p.scope with
  | some signature => return signature.ty
  | none => refuse p span.start .selfOutside

def asValue (p : Place) (span : Span) (ty : Ty) : Traced Ty :=
  if ty.isVoid then refuse p span.start .noValue else return ty

def binary (p : Place) (operator : String) (left right : Ty) (span : Span) : Traced Ty :=
  if left.isError || right.isError then return .error
  else
    match resolveOperator operator left right with
    | .ok ty => return ty
    | .error .unknown => refuse p span.start (.unknownOperator operator left right)
    | .error .mismatch => refuse p span.start (.operands operator left right)

def subscript (p : Place) (target index : Ty) (indexSpan span : Span) : Traced Ty :=
  if target.isError || index.isError then return .error
  else
    match target with
    | .list element =>
      if Ty.int.equals index then return .optional element
      else refuse p indexSpan.start (.listIndex (.list element) index)
    | _ =>
      match resolveOperator OperatorRule.subscript target index with
      | .ok ty => return ty
      | .error _ => refuse p span.start (.subscript target index)

def compareArguments (p : Place) : Nat → List Ty → List (Ty × Span) → Traced Unit
  | index, expected :: params, (received, span) :: arguments => do
    if !received.isError && !expected.equals received then complain p span.start (.argument index expected received)
    compareArguments p (index + 1) params arguments
  | _, _, _ => return ()

def call (p : Place) (callee : Ty) (arguments : List (Ty × Span)) (span : Span) : Traced Ty := do
  match callee with
  | .error => return .error
  | .any => return .any
  | .function params result =>
    if params.length ≠ arguments.length then refuse p span.start (.arity params.length arguments.length)
    else
      compareArguments p 1 params arguments
      return result
  | other => refuse p span.start (.callee other)

def assign (p : Place) (target : Expr) (value : Ty) (valueSpan : Span) : Traced Ty := do
  match target with
  | .ident name span =>
    match (← silent get).arena.lookup? p.scope name with
    | none => refuse p span.start (.undeclared name)
    | some v =>
      if !value.isError && !v.ty.isError && !v.ty.equals value then
        complain p valueSpan.start (.assigned name v.ty value)
      return .void
  | _ => refuse p target.span.start .notVariable

def declare (p : Place) (name : String) (note : Option Note) (value : Ty) (valueSpan span : Span) :
    Traced (Option Ty) := do
  let ty := (note.map Ty.ofNote).getD value
  if note.isSome && !value.isError && !ty.equals value then complain p valueSpan.start (.declared name ty value)
  let cell ← newVariable p.scope name ty span.start
  return cell.map fun _ => ty

def giveBack (p : Place) (value : Option (Ty × Span)) (span : Span) : Traced Unit := do
  match (← silent get).arena.signature? p.scope with
  | none => complain p span.start .outsideFunction
  | some signature =>
    let expected := signature.result
    match value with
    | none => if !expected.isVoid then complain p span.start (.gaveNothing expected)
    | some (received, valueSpan) =>
      if received.isError then return ()
      else if expected.isVoid then complain p valueSpan.start (.gaveSomething received)
      else if !expected.equals received then complain p valueSpan.start (.gaveBack expected received)

def importedNames (p : Place) (path : String) (dependency : ScopeId) (span : Span) :
    List String → Traced (List (String × Ty))
  | [] => return []
  | name :: names => do
    match (← silent get).arena.export? dependency name with
    | some ty => return (name, ty) :: (← importedNames p path dependency span names)
    | none =>
      complain p span.start (.notExported name path)
      importedNames p path dependency span names

def declareImported (p : Place) (span : Span) : List (String × Ty) → Traced Unit
  | [] => return ()
  | (name, ty) :: names => do
    let _ ← newVariable p.global name ty span.start
    declareImported p span names

def use (p : Place) (path : String) (names : Option (List String)) (span : Span) : Traced Unit := do
  if !p.atTop then complain p span.start .useNotAtTop
  else
    match p.imports.find? path with
    | none => complain p span.start (.unresolved path)
    | some dependency =>
      match names with
      | some names => declareImported p span (← importedNames p path dependency span names)
      | none => declareImported p span ((← silent get).arena.exports dependency)

def declareParams (scope : ScopeId) : List Parameter → Traced Unit
  | [] => return ()
  | param :: params => do
    let _ ← newParameter scope param.name (.ofNote param.note) param.span.start
    declareParams scope params

mutual

def expr (p : Place) : Expr → Traced Ty
  | .number value span => typed (.number value span) (return .int)
  | .text value span => typed (.text value span) (return .str)
  | .truth value span => typed (.truth value span) (return .bool)
  | .ident name span => typed (.ident name span) (ident p name span)
  | .self span => typed (.self span) (selfReference p span)
  | .list items span => typed (.list items span) (list p items span)
  | .function id params result body span => typed (.function id params result body span) do
    let signature : Signature := ⟨params.map fun param => .ofNote param.note, .ofNote result⟩
    let scope ← silent (Check.openScope p id signature)
    declareParams scope params
    block { p with scope } body
    return signature.ty
  | .call callee arguments span => typed (.call callee arguments span) do
    let received ← values p arguments
    let function ← expr p callee >>= asValue p callee.span
    call p function received span
  | .assign target assigned span => typed (.assign target assigned span) do
    let ty ← expr p assigned >>= asValue p assigned.span
    assign p target ty assigned.span
  | .binary operator left right span => typed (.binary operator left right span) do
    let l ← expr p left >>= asValue p left.span
    let r ← expr p right >>= asValue p right.span
    binary p operator l r span
  | .subscript target index span => typed (.subscript target index span) do
    let t ← expr p target >>= asValue p target.span
    let i ← expr p index >>= asValue p index.span
    subscript p t i index.span span

def values (p : Place) : List Expr → Traced (List (Ty × Span))
  | [] => return []
  | e :: es => do
    let ty ← expr p e >>= asValue p e.span
    let tys ← values p es
    return (ty, e.span) :: tys

def list (p : Place) (items : List Expr) (span : Span) : Traced Ty := do
  match items with
  | [] => refuse p span.start .emptyList
  | first :: rest =>
    let element ← expr p first >>= asValue p first.span
    let agree ← elements p element rest
    return if element.isError || !agree then .error else .list element

def elements (p : Place) (element : Ty) : List Expr → Traced Bool
  | [] => return true
  | e :: es => do
    let ty ← expr p e >>= asValue p e.span
    if element.isError || ty.isError || element.equals ty then elements p element es
    else
      complain p e.span.start (.element element ty)
      discard <| values p es
      return false

def declaration (p : Place) : Declaration → Traced (Option Ty)
  | ⟨name, note, initial, span⟩ => do
    let ty ← expr p initial >>= asValue p initial.span
    declare p name note ty initial.span span

def stmt (p : Place) : Stmt → Traced Unit
  | .cond condition body _ => do
    let ty ← expr p condition >>= asValue p condition.span
    if !ty.isError && !Ty.bool.equals ty then complain p condition.span.start (.condition ty)
    block { p with conditional := true } body
  | .declare d => discard <| declaration p d
  | .giveBack none span => giveBack p none span
  | .giveBack (some e) span => do
    let ty ← expr p e >>= asValue p e.span
    giveBack p (some (ty, e.span)) span
  | .eval e _ => discard <| expr p e
  | .pub d span => do
    if !p.atTop then
      complain p span.start .pubNotAtTop
      discard <| declaration p d
    else
      match ← declaration p d with
      | some ty => discard <| addExport p.scope d.name ty span.start
      | none => return ()
  | .use path names span => use p path names span

def stmts (p : Place) : List Stmt → Traced Unit
  | [] => return ()
  | s :: ss => do
    stmt p s
    stmts p ss

def block (p : Place) : Block → Traced Unit
  | ⟨body, _⟩ => stmts p body

end

/-! ## Without the trace -/

/-- a piece of checking without its trace -/
def untraced (t : Traced α) : Check α := fun r => ((t r).result, (t r).record)

@[simp] theorem untraced_pure (a : α) : untraced (pure a : Traced α) = pure a := rfl

@[simp] theorem untraced_bind (t : Traced α) (f : α → Traced β) :
    untraced (t >>= f) = untraced t >>= fun a => untraced (f a) := rfl

@[simp] theorem untraced_discard (t : Traced α) : untraced (discard t) = discard (untraced t) := rfl

@[simp] theorem untraced_silent (x : Check α) : untraced (silent x) = x := rfl

@[simp] theorem untraced_typed (e : Expr) (t : Traced Ty) : untraced (typed e t) = untraced t := rfl

variable {p : Place}

theorem untraced_ite {c : Prop} [Decidable c] (t u : Traced α) :
    untraced (if c then t else u) = if c then untraced t else untraced u := by
  split <;> rfl

@[simp] theorem untraced_ident (name : String) (span : Span) :
    untraced (ident p name span) = Check.ident p name span := by
  unfold ident Check.ident
  rw [untraced_bind, untraced_silent]
  refine bind_congr fun r => ?_
  cases r.arena.lookup? p.scope name <;> rfl

@[simp] theorem untraced_selfReference (span : Span) :
    untraced (selfReference p span) = Check.selfReference p span := by
  unfold selfReference Check.selfReference
  rw [untraced_bind, untraced_silent]
  refine bind_congr fun r => ?_
  cases r.arena.signature? p.scope <;> rfl

@[simp] theorem untraced_asValue (span : Span) (ty : Ty) : untraced (asValue p span ty) = Check.asValue p span ty :=
  untraced_ite _ _

@[simp] theorem untraced_binary (operator : String) (left right : Ty) (span : Span) :
    untraced (binary p operator left right span) = Check.binary p operator left right span := by
  unfold binary Check.binary
  rw [untraced_ite]
  rcases resolveOperator operator left right with (_ | _) | ty <;> rfl

@[simp] theorem untraced_subscript (target index : Ty) (indexSpan span : Span) :
    untraced (subscript p target index indexSpan span) = Check.subscript p target index indexSpan span := by
  unfold subscript Check.subscript
  rw [untraced_ite]
  refine congrArg _ ?_
  cases target with
  | list element => exact untraced_ite _ _
  | error | any | void | ident | optional | tuple | function =>
    dsimp only
    cases resolveOperator OperatorRule.subscript _ index <;> rfl

@[simp] theorem untraced_compareArguments (index : Nat) (params : List Ty) (arguments : List (Ty × Span)) :
    untraced (compareArguments p index params arguments) = Check.compareArguments p index params arguments := by
  induction params generalizing index arguments with
  | nil => rfl
  | cons expected params ih =>
    cases arguments with
    | nil => rfl
    | cons argument arguments =>
      unfold compareArguments Check.compareArguments
      dsimp only
      rw [untraced_ite, untraced_bind, ih]
      rfl

@[simp] theorem untraced_call (callee : Ty) (arguments : List (Ty × Span)) (span : Span) :
    untraced (call p callee arguments span) = Check.call p callee arguments span := by
  unfold call Check.call
  cases callee with
  | function params result =>
    dsimp only
    rw [untraced_ite, untraced_bind, untraced_compareArguments]
    rfl
  | error | any | void | ident | optional | tuple | list => rfl

@[simp] theorem untraced_assign (target : Expr) (value : Ty) (valueSpan : Span) :
    untraced (assign p target value valueSpan) = Check.assign p target value valueSpan := by
  unfold assign Check.assign
  cases target with
  | ident name span =>
    dsimp only
    rw [untraced_bind, untraced_silent]
    refine bind_congr fun r => ?_
    cases r.arena.lookup? p.scope name with
    | none => rfl
    | some v => exact untraced_ite _ _
  | number | text | truth | self | list | function | call | assign | binary | subscript => rfl

@[simp] theorem untraced_declare (name : String) (note : Option Note) (value : Ty) (valueSpan span : Span) :
    untraced (declare p name note value valueSpan span) = Check.declare p name note value valueSpan span :=
  untraced_ite _ _

@[simp] theorem untraced_giveBack (value : Option (Ty × Span)) (span : Span) :
    untraced (giveBack p value span) = Check.giveBack p value span := by
  unfold giveBack Check.giveBack
  rw [untraced_bind, untraced_silent]
  refine bind_congr fun r => ?_
  cases r.arena.signature? p.scope with
  | none => rfl
  | some signature =>
    cases value with
    | none => exact untraced_ite _ _
    | some value =>
      dsimp only
      rw [untraced_ite, untraced_ite, untraced_ite]
      rfl

@[simp] theorem untraced_importedNames (path : String) (dependency : ScopeId) (span : Span) (names : List String) :
    untraced (importedNames p path dependency span names) = Check.importedNames p path dependency span names := by
  induction names with
  | nil => rfl
  | cons name names ih =>
    unfold importedNames Check.importedNames
    rw [untraced_bind, untraced_silent]
    refine bind_congr fun r => ?_
    cases r.arena.export? dependency name with
    | some ty =>
      dsimp only
      rw [untraced_bind, ih]
      rfl
    | none =>
      dsimp only
      rw [untraced_bind, ih]
      rfl

@[simp] theorem untraced_declareImported (span : Span) (names : List (String × Ty)) :
    untraced (declareImported p span names) = Check.declareImported p span names := by
  induction names with
  | nil => rfl
  | cons name names ih =>
    unfold declareImported Check.declareImported
    rw [untraced_bind, ih]
    rfl

@[simp] theorem untraced_use (path : String) (names : Option (List String)) (span : Span) :
    untraced (use p path names span) = Check.use p path names span := by
  unfold use Check.use
  rw [untraced_ite]
  cases p.imports.find? path with
  | none => rfl
  | some dependency =>
    cases names with
    | some names =>
      dsimp only
      rw [untraced_bind, untraced_importedNames]
      simp only [untraced_declareImported]
      rfl
    | none =>
      dsimp only
      rw [untraced_bind, untraced_silent]
      simp only [untraced_declareImported]
      rfl

@[simp] theorem untraced_declareParams (scope : ScopeId) (params : List Parameter) :
    untraced (declareParams scope params) = Check.declareParams scope params := by
  induction params with
  | nil => rfl
  | cons param params ih =>
    unfold declareParams Check.declareParams
    rw [untraced_bind, ih]
    rfl

-- by recursion on the tree, for every place

mutual

theorem untraced_expr (p : Place) (e : Expr) : untraced (expr p e) = Check.expr p e := by
  cases e with
  | number | text | truth => rfl
  | ident name span => simp only [expr, Check.expr, untraced_typed, untraced_ident]
  | self span => simp only [expr, Check.expr, untraced_typed, untraced_selfReference]
  | list items span => simp only [expr, Check.expr, untraced_typed, untraced_list p items span]
  | function id params result body span =>
    simp only [expr, Check.expr, untraced_typed, untraced_bind, untraced_silent, untraced_declareParams, untraced_pure,
      untraced_block _ body]
  | call callee arguments span =>
    simp only [expr, Check.expr, untraced_typed, untraced_bind, untraced_asValue, untraced_call,
      untraced_values p arguments, untraced_expr p callee]
  | assign target assigned span =>
    simp only [expr, Check.expr, untraced_typed, untraced_bind, untraced_asValue, untraced_assign,
      untraced_expr p assigned]
  | binary operator left right span =>
    simp only [expr, Check.expr, untraced_typed, untraced_bind, untraced_asValue, untraced_binary, untraced_expr p left,
      untraced_expr p right]
  | subscript target index span =>
    simp only [expr, Check.expr, untraced_typed, untraced_bind, untraced_asValue, untraced_subscript,
      untraced_expr p target, untraced_expr p index]
termination_by structural e

theorem untraced_values (p : Place) (es : List Expr) : untraced (values p es) = Check.values p es := by
  cases es with
  | nil => simp only [values, Check.values, untraced_pure]
  | cons e es =>
    simp only [values, Check.values, untraced_bind, untraced_asValue, untraced_pure, untraced_expr p e,
      untraced_values p es]
termination_by structural es

theorem untraced_list (p : Place) (items : List Expr) (span : Span) :
    untraced (list p items span) = Check.list p items span := by
  cases items with
  | nil =>
    unfold list Check.list
    rfl
  | cons first rest =>
    unfold list Check.list
    simp only [untraced_bind, untraced_asValue, untraced_pure, untraced_expr p first, untraced_elements p _ rest]
termination_by structural items

theorem untraced_elements (p : Place) (element : Ty) (es : List Expr) :
    untraced (elements p element es) = Check.elements p element es := by
  cases es with
  | nil =>
    unfold elements Check.elements
    rfl
  | cons e es =>
    unfold elements Check.elements
    simp only [untraced_bind, untraced_asValue, untraced_expr p e, untraced_ite, untraced_elements p element es,
      untraced_discard, untraced_values p es]
    rfl
termination_by structural es

theorem untraced_declaration (p : Place) (d : Declaration) : untraced (declaration p d) = Check.declaration p d := by
  cases d with
  | mk name note initial span =>
    simp only [declaration, Check.declaration, untraced_bind, untraced_asValue, untraced_declare,
      untraced_expr p initial]
termination_by structural d

theorem untraced_stmt (p : Place) (s : Stmt) : untraced (stmt p s) = Check.stmt p s := by
  cases s with
  | cond condition body span =>
    simp only [stmt, Check.stmt, untraced_bind, untraced_asValue, untraced_expr p condition]
    refine bind_congr fun ty => ?_
    rw [untraced_ite, untraced_bind, untraced_block _ body]
    rfl
  | declare d => simp only [stmt, Check.stmt, untraced_discard, untraced_declaration p d]
  | giveBack value span =>
    cases value with
    | none => simp only [stmt, Check.stmt, untraced_giveBack]
    | some e =>
      simp only [stmt, Check.stmt, untraced_bind, untraced_asValue, untraced_giveBack, untraced_expr p e]
  | eval e span => simp only [stmt, Check.stmt, untraced_discard, untraced_expr p e]
  | pub d span =>
    simp only [stmt, Check.stmt, untraced_ite, untraced_bind, untraced_discard, untraced_declaration p d]
    refine congrArg _ (bind_congr fun declared => ?_)
    cases declared <;> rfl
  | use path names span => simp only [stmt, Check.stmt, untraced_use]
termination_by structural s

theorem untraced_stmts (p : Place) (ss : List Stmt) : untraced (stmts p ss) = Check.stmts p ss := by
  cases ss with
  | nil => simp only [stmts, Check.stmts, untraced_pure]
  | cons s ss => simp only [stmts, Check.stmts, untraced_bind, untraced_stmt p s, untraced_stmts p ss]
termination_by structural ss

theorem untraced_block (p : Place) (b : Block) : untraced (block p b) = Check.block p b := by
  cases b with
  | mk body span => simp only [block, Check.block, untraced_stmts p body]
termination_by structural b

end

end Traced

/-- the check of a module, with a trace -/
def tracedModule (arena : Arena) (body : Block) (imports : Imports) : Outcome Unit :=
  Traced.block (Check.top imports arena) body (Check.start arena)

/-- without its trace it is the check of the module -/
theorem tracedModule_eq (arena : Arena) (body : Block) (imports : Imports) :
    checkModule arena body imports = (⟨arena.scopes.size, (tracedModule arena body imports).record.functions⟩,
      (tracedModule arena body imports).record.arena) := by
  have hrecord : (tracedModule arena body imports).record = Check.finish imports arena body :=
    congrArg (fun x => (x (Check.start arena)).2) (Traced.untraced_block (Check.top imports arena) body)
  rw [Check.checkModule_eq, hrecord]

end TypedScript
