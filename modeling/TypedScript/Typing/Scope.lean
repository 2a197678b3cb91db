/-
Scopes. Every function body has a scope, whose parent is the scope the function literal stands in; a module's body has a
global scope, which also holds the module's exports and what was found wrong with the module. The scopes of all modules
live in one arena, in the order in which they were opened. A name is looked for from a scope outwards along its chain.
Every variable of an arena has a cell of its own, by whose number it is known when the program runs.

- `Arena.chain_eq`: where every scope was opened after the one around it, a scope's chain is the scope and then its
  parent's chain.
- `Scope.variableIndex?_eq_some`: the index of a name leads to a variable of that name.
-/
import TypedScript.Typing.Ty

namespace TypedScript

/-- something found wrong while checking, which does not stop the check -/
structure Diagnostic where
  position : Position
  text : String
deriving DecidableEq, Inhabited

def Diagnostic.render (d : Diagnostic) : String := "(" ++ d.position.render ++ ") " ++ d.text

/-- where a variable's value is kept when the program runs -/
structure Cell where
  id : Nat
  name : String
deriving DecidableEq, Inhabited

def Cell.render (c : Cell) : String := c.name ++ "#" ++ toString c.id

structure Variable where
  ty : Ty
  cell : Cell
deriving Inhabited

/-- a scope's place in its arena -/
abbrev ScopeId := Nat

inductive ScopeKind
  /-- the scope of a module's body -/
  | global (exports : List (String × Ty)) (diagnostics : List Diagnostic)
  /-- the scope of a function's body -/
  | local (parent : ScopeId) (signature : Signature)
deriving Inhabited

structure Scope where
  kind : ScopeKind
  /-- in the order of declaration, parameters first -/
  declared : List Variable
  /-- how many of the variables are parameters -/
  paramCount : Nat
deriving Inhabited

namespace Scope

def ofKind (kind : ScopeKind) : Scope := ⟨kind, [], 0⟩

def isGlobal (s : Scope) : Bool :=
  match s.kind with
  | .global _ _ => true
  | .local _ _ => false

/-- the place of a name in the order of declaration -/
def variableIndex? (s : Scope) (name : String) : Option Nat :=
  s.declared.findIdx? fun v => v.cell.name = name

def variableAt? (s : Scope) (index : Nat) : Option Variable := s.declared[index]?

/-- the variable of a name in this scope alone -/
def find? (s : Scope) (name : String) : Option Variable := s.declared.find? fun v => v.cell.name = name

def parameters (s : Scope) : List Variable := s.declared.take s.paramCount

/-- the variables that are not parameters -/
def locals (s : Scope) : List Variable := s.declared.drop s.paramCount

theorem parameters_append_locals (s : Scope) : s.parameters ++ s.locals = s.declared :=
  List.take_append_drop _ _

theorem variableIndex?_eq_some {s : Scope} {name : String} {i : Nat} (h : s.variableIndex? name = some i) :
    ∃ v, s.variableAt? i = some v ∧ v.cell.name = name := by
  obtain ⟨hi, hv, _⟩ := List.findIdx?_eq_some_iff_getElem.1 h
  exact ⟨s.declared[i], List.getElem?_eq_getElem hi, by simpa using hv⟩

end Scope

/-- the scopes of a compilation, and the number of the next cell. Cells are counted without a bound; a counter of 32
bits has the same numbers for the first `2 ^ 32` of them, which no memory holds the variables of. -/
structure Arena where
  scopes : Array Scope
  nextCell : Nat
deriving Inhabited

namespace Arena

def empty : Arena := ⟨#[], 0⟩

def get? (a : Arena) (id : ScopeId) : Option Scope := a.scopes[id]?

def add (a : Arena) (scope : Scope) : ScopeId × Arena := (a.scopes.size, { a with scopes := a.scopes.push scope })

def update (a : Arena) (id : ScopeId) (f : Scope → Scope) : Arena := { a with scopes := a.scopes.modify id f }

def newGlobal (a : Arena) : ScopeId × Arena := a.add (.ofKind (.global [] []))

def newLocal (a : Arena) (parent : ScopeId) (signature : Signature) : ScopeId × Arena :=
  a.add (.ofKind (.local parent signature))

/-- the scope around a scope -/
def parent? (a : Arena) (id : ScopeId) : Option ScopeId :=
  match a.get? id with
  | some ⟨.local parent _, _, _⟩ => some parent
  | _ => none

/-- a scope and those around it, the innermost first, as far as `count` of them -/
def outward (a : Arena) : (count : Nat) → ScopeId → List ScopeId
  | 0, _ => []
  | count + 1, id =>
    id :: match a.parent? id with
      | some parent => a.outward count parent
      | none => []

/-- a scope and all those around it, the innermost first; no scope is around itself, so that there are no more of them
than scopes -/
def chain (a : Arena) (id : ScopeId) : List ScopeId := a.outward a.scopes.size id

/-- every scope was opened after the one around it -/
def Ordered (a : Arena) : Prop := ∀ id parent, a.parent? id = some parent → parent < id

theorem ordered_empty : empty.Ordered := by
  intro id parent h
  simp [parent?, get?, empty] at h

theorem outward_eq {a : Arena} (h : a.Ordered) {id m n : Nat} (hm : id < m) (hn : id < n) :
    a.outward m id = a.outward n id := by
  induction id using Nat.strongRecOn generalizing m n with
  | ind id ih =>
    obtain ⟨m, rfl⟩ := Nat.exists_eq_add_one_of_ne_zero (Nat.ne_zero_of_lt hm)
    obtain ⟨n, rfl⟩ := Nat.exists_eq_add_one_of_ne_zero (Nat.ne_zero_of_lt hn)
    simp only [outward]
    cases hp : a.parent? id with
    | none => rfl
    | some parent =>
      have hlt := h id parent hp
      simp only [ih parent hlt (Nat.lt_of_lt_of_le hlt (Nat.le_of_lt_succ hm))
        (Nat.lt_of_lt_of_le hlt (Nat.le_of_lt_succ hn))]

theorem chain_eq {a : Arena} (h : a.Ordered) {id : ScopeId} (hid : id < a.scopes.size) :
    a.chain id = id :: match a.parent? id with | some parent => a.chain parent | none => [] := by
  rw [chain, outward_eq h hid (Nat.lt_succ_of_lt hid)]
  rfl

/-- the outermost scope around a scope -/
def root (a : Arena) (id : ScopeId) : ScopeId := (a.chain id).getLast?.getD id

/-- the variable that a name means in a scope: that of the innermost scope declaring it -/
def lookup? (a : Arena) (id : ScopeId) (name : String) : Option Variable :=
  (a.chain id).findSome? fun s => (a.get? s).bind fun s => s.find? name

def hasVariable (a : Arena) (id : ScopeId) (name : String) : Bool :=
  ((a.get? id).bind fun s => s.find? name).isSome

/-- the signature of the function whose body the scope is of -/
def signature? (a : Arena) (id : ScopeId) : Option Signature :=
  match a.get? id with
  | some ⟨.local _ signature, _, _⟩ => some signature
  | _ => none

def isGlobal (a : Arena) (id : ScopeId) : Bool := (a.get? id).any Scope.isGlobal

def exports (a : Arena) (id : ScopeId) : List (String × Ty) :=
  match a.get? id with
  | some ⟨.global exports _, _, _⟩ => exports
  | _ => []

def export? (a : Arena) (id : ScopeId) (name : String) : Option Ty := (a.exports id).lookup name

/-- what was found wrong with the module around a scope -/
def diagnostics (a : Arena) (id : ScopeId) : List Diagnostic :=
  match a.get? (a.root id) with
  | some ⟨.global _ diagnostics, _, _⟩ => diagnostics
  | _ => []

def hasErrors (a : Arena) (id : ScopeId) : Bool := !(a.diagnostics id).isEmpty

/-- note something wrong with the module around a scope -/
def report (a : Arena) (id : ScopeId) (position : Position) (text : String) : Arena :=
  a.update (a.root id) fun s =>
    match s.kind with
    | .global exports diagnostics => { s with kind := .global exports (diagnostics ++ [⟨position, text⟩]) }
    | .local _ _ => s

/-- a new variable in a scope; a second one of a name is reported instead -/
def newVariable (a : Arena) (id : ScopeId) (name : String) (ty : Ty) (position : Position) : Option Cell × Arena :=
  if a.hasVariable id name then (none, a.report id position ("'" ++ name ++ "' is already declared"))
  else
    let cell : Cell := ⟨a.nextCell, name⟩
    let scopes := a.scopes.modify id fun s => { s with declared := s.declared ++ [⟨ty, cell⟩] }
    (some cell, ⟨scopes, a.nextCell + 1⟩)

/-- a new parameter, declared before the other variables of its scope -/
def newParameter (a : Arena) (id : ScopeId) (name : String) (ty : Ty) (position : Position) : Option Cell × Arena :=
  match a.newVariable id name ty position with
  | (none, a) => (none, a)
  | (some cell, a) => (some cell, a.update id fun s => { s with paramCount := s.paramCount + 1 })

/-- the complaint about an export that does not stand at the top level -/
def exportNotAtTop : String := "'pub' is only allowed at the top level of a module"

/-- a new export of a global scope; a second one of a name, or one of another scope, is reported instead -/
def addExport (a : Arena) (id : ScopeId) (name : String) (ty : Ty) (position : Position) : Bool × Arena :=
  if (a.export? id name).isSome then (false, a.report id position ("'" ++ name ++ "' is already exported"))
  else if !a.isGlobal id then (false, a.report id position exportNotAtTop)
  else
    (true, a.update id fun s =>
      match s.kind with
      | .global exports diagnostics => { s with kind := .global (exports ++ [(name, ty)]) diagnostics }
      | .local _ _ => s)

/-- a global scope of variables that are all exported -/
def newNative (a : Arena) (exports : List (String × Ty)) : ScopeId × Arena :=
  let (id, a) := a.newGlobal
  (id, exports.foldl (fun a e => ((a.newVariable id e.1 e.2 .null).2.addExport id e.1 e.2 .null).2) a)

end Arena

end TypedScript
