/-
Arenas with an index of names. A scope keeps, beside its variables, a table from each name to the place of its variable;
a name is free where the table does not have it, and it is looked for through the tables. The tables are changed on
their own, so that they have to be kept in step with the variables. Where they are, an arena with tables does just what
the arena does without them.

- `Arena.Indexed.Faithful`: the tables are in step with the variables; every operation leaves them so.
- `Arena.Indexed.newVariable_eq`, `Arena.Indexed.newParameter_eq`: declaring by the tables is declaring.
- `Arena.Indexed.index?_eq`, `Arena.Indexed.lookup?_eq`: looking up through the tables is looking up.
-/
import TypedScript.Proofs.Typing.Module
import TypedScript.Proofs.Typing.Arena.Append

namespace TypedScript.Arena

/-- an arena, and for each of its scopes the places of the names among the scope's variables -/
structure Indexed where
  arena : Arena
  names : Array (Table String Nat)
deriving Inhabited

namespace Indexed

def empty : Indexed := ⟨.empty, #[]⟩

/-- the place that a scope's table has for a name -/
def index? (x : Indexed) (id : ScopeId) (name : String) : Option Nat :=
  (x.names[id]?).bind fun table => table.find? name

def newGlobal (x : Indexed) : ScopeId × Indexed := (x.arena.newGlobal.1, ⟨x.arena.newGlobal.2, x.names.push .empty⟩)

def newLocal (x : Indexed) (parent : ScopeId) (signature : Signature) : ScopeId × Indexed :=
  ((x.arena.newLocal parent signature).1, ⟨(x.arena.newLocal parent signature).2, x.names.push .empty⟩)

def report (x : Indexed) (id : ScopeId) (position : Position) (text : String) : Indexed :=
  { x with arena := x.arena.report id position text }

/-- a new variable, unless the scope's table has its name -/
def newVariable (x : Indexed) (id : ScopeId) (name : String) (ty : Ty) (position : Position) : Option Cell × Indexed :=
  match x.index? id name with
  | some _ => (none, x.report id position ("'" ++ name ++ "' is already declared"))
  | none =>
    (some ⟨x.arena.nextCell, name⟩, ⟨x.arena.extend id name ty,
      x.names.modify id fun table => table.insert name (x.arena.declaredCount id)⟩)

def newParameter (x : Indexed) (id : ScopeId) (name : String) (ty : Ty) (position : Position) :
    Option Cell × Indexed :=
  match x.newVariable id name ty position with
  | (none, x) => (none, x)
  | (some cell, x) => (some cell, { x with arena := x.arena.update id Scope.countParameter })

def addExport (x : Indexed) (id : ScopeId) (name : String) (ty : Ty) (position : Position) : Bool × Indexed :=
  ((x.arena.addExport id name ty position).1, { x with arena := (x.arena.addExport id name ty position).2 })

/-- the variable at the place that the innermost scope with the name has for it -/
def lookup? (x : Indexed) (id : ScopeId) (name : String) : Option Variable :=
  (x.arena.chain id).findSome? fun y => (x.index? y name).bind fun i => (x.arena.get? y).bind fun s => s.variableAt? i

/-! ## Tables in step -/

/-- each scope has a table, which has the places of just the names of the scope's variables -/
structure Faithful (x : Indexed) : Prop where
  size : x.names.size = x.arena.scopes.size
  places : ∀ id s, x.arena.get? id = some s → ∀ name i,
    x.index? id name = some i ↔ ∃ v, s.variableAt? i = some v ∧ v.cell.name = name

variable {x : Indexed} {id : ScopeId} {name : String} {i : Nat} {s : Scope}

theorem faithful_empty : empty.Faithful := ⟨rfl, fun _ _ hs => nomatch hs⟩

theorem index?_of_get?_none (h : x.Faithful) (hid : x.arena.get? id = none) : x.index? id name = none := by
  unfold index?
  rw [Array.getElem?_eq_none (h.size ▸ Array.getElem?_eq_none_iff.1 hid)]
  rfl

/-- a scope that is opened gets an empty table -/
theorem Faithful.add (h : x.Faithful) (kind : ScopeKind) :
    Faithful ⟨(x.arena.add (.ofKind kind)).2, x.names.push .empty⟩ := by
  refine ⟨by simp [h.size], fun id s hs name i => ?_⟩
  rw [get?_add] at hs
  simp only [index?, Array.getElem?_push, h.size]
  by_cases hid : id = x.arena.scopes.size
  · rw [if_pos hid] at hs ⊢
    cases hs
    simp [Scope.variableAt?, Scope.ofKind]
  · rw [if_neg hid] at hs ⊢
    exact h.places id s hs name i

/-- a scope changes without a change of its variables -/
theorem Faithful.update (h : x.Faithful) {f : Scope → Scope} (hf : ∀ s, (f s).declared = s.declared) (id : ScopeId) :
    Faithful { x with arena := x.arena.update id f } := by
  refine ⟨by simp [h.size], fun y s hs name i => ?_⟩
  rw [get?_update] at hs
  split at hs
  · obtain ⟨t, ht, rfl⟩ := Option.map_eq_some_iff.1 hs
    unfold Scope.variableAt?
    rw [hf]
    exact h.places y t ht name i
  · exact h.places y s hs name i

theorem Faithful.report (h : x.Faithful) (id : ScopeId) (position : Position) (text : String) :
    (x.report id position text).Faithful :=
  h.update (fun s => by obtain ⟨kind, declared, count⟩ := s; cases kind <;> rfl) _

theorem Faithful.addExport (h : x.Faithful) (id : ScopeId) (name : String) (ty : Ty) (position : Position) :
    (x.addExport id name ty position).2.Faithful := by
  unfold Indexed.addExport Arena.addExport
  split
  · exact h.report _ _ _
  split
  · exact h.report _ _ _
  · exact h.update (fun s => by obtain ⟨kind, declared, count⟩ := s; cases kind <;> rfl) id

/-- a new variable and its name get the same place -/
theorem Faithful.extend (h : x.Faithful) (hnew : x.index? id name = none) (ty : Ty) :
    Faithful ⟨x.arena.extend id name ty,
      x.names.modify id fun table => table.insert name (x.arena.declaredCount id)⟩ := by
  refine ⟨by simp [Arena.extend, h.size], fun y s hs other i => ?_⟩
  rw [get?_extend] at hs
  simp only [index?, Array.getElem?_modify]
  by_cases hy : id = y
  · subst hy
    rw [if_pos rfl] at hs ⊢
    obtain ⟨t, ht, rfl⟩ := Option.map_eq_some_iff.1 hs
    obtain ⟨table, htable⟩ : ∃ table, x.names[id]? = some table :=
      ⟨_, Array.getElem?_eq_getElem (h.size ▸ lt_of_get? ht)⟩
    have hold := h.places id t ht
    simp only [index?, htable, Option.bind_some, Scope.variableAt?] at hold hnew
    simp only [htable, Option.map_some, Option.bind_some, Table.find?_insert, declaredCount_of_get? ht,
      Scope.variableAt?]
    by_cases hother : name = other
    · subst hother
      rw [if_pos rfl, Option.some.injEq]
      refine ⟨fun hi => ⟨_, hi ▸ List.getElem?_concat_length, rfl⟩, ?_⟩
      rintro ⟨v, hv, hname⟩
      -- the name was free, so that no earlier variable has it
      rcases Nat.lt_trichotomy i t.declared.length with hi | hi | hi
      · rw [List.getElem?_append_left hi] at hv
        exact absurd ((hold name i).2 ⟨v, hv, hname⟩) (by simp [hnew])
      · exact hi.symm
      · rw [List.getElem?_eq_none (by simpa using Nat.succ_le_of_lt hi)] at hv
        cases hv
    · rw [if_neg hother, hold other i]
      constructor
      · rintro ⟨v, hv, hname⟩
        refine ⟨v, ?_, hname⟩
        rw [List.getElem?_append_left (List.getElem?_eq_some_iff.1 hv).1]
        exact hv
      · rintro ⟨v, hv, hname⟩
        rcases Nat.lt_trichotomy i t.declared.length with hi | hi | hi
        · rw [List.getElem?_append_left hi] at hv
          exact ⟨v, hv, hname⟩
        · rw [hi, List.getElem?_concat_length] at hv
          cases hv
          exact absurd hname hother
        · rw [List.getElem?_eq_none (by simpa using Nat.succ_le_of_lt hi)] at hv
          cases hv
  · rw [if_neg hy] at hs ⊢
    exact h.places y s hs other i

/-! ## The same answers -/

theorem hasVariable_eq (h : x.Faithful) (id : ScopeId) (name : String) :
    x.arena.hasVariable id name = (x.index? id name).isSome := by
  cases hs : x.arena.get? id with
  | none => rw [index?_of_get?_none h hs, hasVariable, hs]; rfl
  | some s =>
    rw [Bool.eq_iff_iff, hasVariable_iff, Option.isSome_iff_exists]
    constructor
    · rintro ⟨t, v, ht, hv⟩
      obtain rfl : s = t := Option.some.inj (hs.symm.trans ht)
      obtain ⟨i, hi⟩ := List.getElem?_of_mem (List.mem_of_find?_eq_some hv)
      exact ⟨i, (h.places id s hs name i).2 ⟨v, hi, by simpa using List.find?_some hv⟩⟩
    · rintro ⟨i, hi⟩
      obtain ⟨v, hv, hname⟩ := (h.places id s hs name i).1 hi
      obtain ⟨w, hw⟩ : ∃ w, s.find? name = some w := by
        unfold Scope.find?
        rw [← Option.isSome_iff_exists, List.find?_isSome]
        exact ⟨v, List.mem_of_getElem? hv, by simpa using hname⟩
      exact ⟨s, w, hs, hw⟩

theorem newVariable_eq (h : x.Faithful) (id : ScopeId) (name : String) (ty : Ty) (position : Position) :
    ((x.newVariable id name ty position).1, (x.newVariable id name ty position).2.arena) =
      x.arena.newVariable id name ty position := by
  have hvar := hasVariable_eq h id name
  unfold newVariable
  cases hi : x.index? id name with
  | some i =>
    rw [hi] at hvar
    rw [newVariable_of_hasVariable hvar]
    rfl
  | none =>
    rw [hi] at hvar
    rw [newVariable_of_not_hasVariable hvar]

theorem newParameter_eq (h : x.Faithful) (id : ScopeId) (name : String) (ty : Ty) (position : Position) :
    ((x.newParameter id name ty position).1, (x.newParameter id name ty position).2.arena) =
      x.arena.newParameter id name ty position := by
  have hnew := newVariable_eq h id name ty position
  unfold newParameter Arena.newParameter
  rw [← hnew]
  obtain ⟨cell, y⟩ := x.newVariable id name ty position
  cases cell <;> rfl

theorem Faithful.newVariable (h : x.Faithful) (id : ScopeId) (name : String) (ty : Ty) (position : Position) :
    (x.newVariable id name ty position).2.Faithful := by
  unfold Indexed.newVariable
  cases hi : x.index? id name with
  | some i => exact h.report _ _ _
  | none => exact h.extend hi ty

theorem Faithful.newParameter (h : x.Faithful) (id : ScopeId) (name : String) (ty : Ty) (position : Position) :
    (x.newParameter id name ty position).2.Faithful := by
  have hnew := h.newVariable id name ty position
  unfold Indexed.newParameter
  generalize x.newVariable id name ty position = answer at hnew
  obtain ⟨cell, y⟩ := answer
  cases cell with
  | none => exact hnew
  | some cell => exact Faithful.update hnew (f := Scope.countParameter) (fun _ => rfl) id

theorem index?_eq (h : x.Faithful) (id : ScopeId) (name : String) :
    x.index? id name = (x.arena.get? id).bind fun s => s.variableIndex? name := by
  cases hs : x.arena.get? id with
  | none => exact index?_of_get?_none h hs
  | some s =>
    rw [Option.bind_some]
    cases hi : s.variableIndex? name with
    | some i =>
      exact (h.places id s hs name i).2 (Scope.variableIndex?_eq_some hi)
    | none =>
      cases hx : x.index? id name with
      | none => rfl
      | some i =>
        obtain ⟨v, hv, hname⟩ := (h.places id s hs name i).1 hx
        have hall := List.findIdx?_eq_none_iff.1 hi v (List.mem_of_getElem? hv)
        simp [hname] at hall

theorem lookup?_eq (h : x.Faithful) (id : ScopeId) (name : String) : x.lookup? id name = x.arena.lookup? id name := by
  unfold lookup? Arena.lookup?
  refine congrArg (List.findSome? · _) (funext fun y => ?_)
  rw [index?_eq h y name]
  cases hs : x.arena.get? y with
  | none => rfl
  | some s =>
    simp only [Option.bind_some]
    unfold Scope.variableIndex? Scope.find? Scope.variableAt?
    rw [List.find?_eq_bind_findIdx?_getElem?]

end Indexed

end TypedScript.Arena
