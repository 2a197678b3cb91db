/-
What comes of any operations on an arena. The operations may come in any order and may be refused; what they have to
keep to is that they are about scopes there are and that the parameters of a scope come before its other variables. A
`History` is what has been made of an empty arena, with the variables that were declared on the way, in their order.

- `Arena.History.Kept`: what every operation preserves (`Kept.step`, `Kept.run`).
- `Arena.History.Consistent`: what that says of an arena and its scopes.
- `Arena.Indexed.Refuses`: an operation that is refused changes nothing but the diagnostics of the module.
- `Arena.histories_consistent`: so it is after any operations.
-/
import Mathlib.Data.List.Chain
import TypedScript.Proofs.Typing.Arena.Indexed

namespace TypedScript.Arena

/-- an operation on the scopes of an arena -/
inductive Operation
  | newGlobal
  | newLocal (parent : ScopeId) (signature : Signature)
  | newNative (exports : List (String × Ty))
  | newVariable (scope : ScopeId) (name : String) (ty : Ty) (position : Position)
  | newParameter (scope : ScopeId) (name : String) (ty : Ty) (position : Position)
  | addExport (scope : ScopeId) (name : String) (ty : Ty) (position : Position)
  | report (scope : ScopeId) (position : Position) (text : String)

namespace Operation

/-- what an operation makes of an arena -/
def apply (a : Arena) : Operation → Arena
  | newGlobal => a.newGlobal.2
  | newLocal parent signature => (a.newLocal parent signature).2
  | newNative exports => (a.newNative exports).2
  | newVariable scope name ty position => (a.newVariable scope name ty position).2
  | newParameter scope name ty position => (a.newParameter scope name ty position).2
  | addExport scope name ty position => (a.addExport scope name ty position).2
  | report scope position text => a.report scope position text

/-- the scope that an operation is about, if it is about one -/
def scope? : Operation → Option ScopeId
  | newGlobal => none
  | newLocal parent _ => some parent
  | newNative _ => none
  | newVariable scope _ _ _ => some scope
  | newParameter scope _ _ _ => some scope
  | addExport scope _ _ _ => some scope
  | report scope _ _ => some scope

/-- the scope that an operation gives a parameter -/
def parameterOf? : Operation → Option ScopeId
  | newParameter scope _ _ _ => some scope
  | _ => none

end Operation

/-- a variable that was declared -/
structure Made where
  scope : ScopeId
  parameter : Bool
  declared : Variable

/-- what operations have made of an empty arena, and the variables that they declared -/
structure History where
  indexed : Indexed
  made : List Made

namespace History

def empty : History := ⟨.empty, []⟩

/-- declare a variable; if it gets a cell, it was made -/
def declare (h : History) (parameter : Bool) (scope : ScopeId) (name : String) (ty : Ty) (position : Position) :
    History :=
  let (cell, indexed) :=
    if parameter then h.indexed.newParameter scope name ty position else h.indexed.newVariable scope name ty position
  ⟨indexed, h.made ++ (cell.map fun cell => ⟨scope, parameter, ⟨ty, cell⟩⟩).toList⟩

def addExport (h : History) (scope : ScopeId) (name : String) (ty : Ty) (position : Position) : History :=
  { h with indexed := (h.indexed.addExport scope name ty position).2 }

/-- one more variable of a native module, which is exported -/
def provide (scope : ScopeId) (h : History) (e : String × Ty) : History :=
  (h.declare false scope e.1 e.2 .null).addExport scope e.1 e.2 .null

def step (h : History) : Operation → History
  | .newGlobal => { h with indexed := h.indexed.newGlobal.2 }
  | .newLocal parent signature => { h with indexed := (h.indexed.newLocal parent signature).2 }
  | .newNative exports =>
    exports.foldl (provide h.indexed.newGlobal.1) { h with indexed := h.indexed.newGlobal.2 }
  | .newVariable scope name ty position => h.declare false scope name ty position
  | .newParameter scope name ty position => h.declare true scope name ty position
  | .addExport scope name ty position => h.addExport scope name ty position
  | .report scope position text => { h with indexed := h.indexed.report scope position text }

def run (h : History) (operations : List Operation) : History := operations.foldl step h

/-- the parameters of a scope that were made, or its other variables -/
def madeIn (h : History) (scope : ScopeId) (parameter : Bool) : List Variable :=
  (h.made.filter fun d => d.scope = scope ∧ d.parameter = parameter).map Made.declared

/-- an operation is about a scope there is, and a parameter comes before the other variables of its scope -/
structure Allows (h : History) (operation : Operation) : Prop where
  valid : ∀ scope ∈ operation.scope?, scope < h.indexed.arena.scopes.size
  before : ∀ scope ∈ operation.parameterOf?, h.madeIn scope false = []

instance (h : History) (operation : Operation) : Decidable (h.Allows operation) :=
  decidable_of_iff (_ ∧ _) ⟨fun ⟨valid, before⟩ => ⟨valid, before⟩, fun ha => ⟨ha.valid, ha.before⟩⟩

/-- each of some operations is allowed when its turn comes -/
def AllowsAll (h : History) : List Operation → Prop
  | [] => True
  | operation :: operations => h.Allows operation ∧ (h.step operation).AllowsAll operations

instance decideAllowsAll : (h : History) → (operations : List Operation) → Decidable (h.AllowsAll operations)
  | _, [] => .isTrue trivial
  | h, operation :: operations =>
    have := decideAllowsAll (h.step operation) operations
    inferInstanceAs (Decidable (_ ∧ _))

/-! ## What every operation preserves -/

structure Kept (h : History) : Prop where
  faithful : h.indexed.Faithful
  ordered : h.indexed.arena.Ordered
  /-- every cell is behind the cells made before -/
  increasing : h.made.Pairwise fun d e => d.declared.cell.id < e.declared.cell.id
  /-- what was made has a scope, and a cell that was given out -/
  within : ∀ d ∈ h.made, d.scope < h.indexed.arena.scopes.size ∧ d.declared.cell.id < h.indexed.arena.nextCell
  declared : ∀ id s, h.indexed.arena.get? id = some s →
    s.declared = h.madeIn id true ++ h.madeIn id false ∧ s.paramCount = (h.madeIn id true).length

variable {h : History} {id : ScopeId} {s : Scope}

theorem kept_empty : empty.Kept :=
  ⟨Indexed.faithful_empty, ordered_empty, .nil, fun _ hd => (nomatch hd), fun _ _ hs => (nomatch hs)⟩

/-- the arena changes, and no variable of it -/
theorem Kept.arena (hk : h.Kept) {a : Arena} (hfaithful : Indexed.Faithful { h.indexed with arena := a })
    (hfills : h.indexed.arena.Fills a)
    (hscope : ∀ id t, a.get? id = some t → ∃ s, h.indexed.arena.get? id = some s ∧ t.declared = s.declared ∧
      t.paramCount = s.paramCount) : Kept { h with indexed := { h.indexed with arena := a } } := by
  refine ⟨hfaithful, hk.ordered.fills hfills, hk.increasing, fun d hd => ?_, fun id t ht => ?_⟩
  · obtain ⟨hsize, hcell⟩ := hk.within d hd
    exact ⟨hfills.size ▸ hsize, Nat.lt_of_lt_of_le hcell hfills.later.nextCell⟩
  · obtain ⟨s, hs, hdeclared, hcount⟩ := hscope id t ht
    rw [hdeclared, hcount]
    exact hk.declared id s hs

/-- a scope changes, and neither its variables nor its parameters do -/
theorem scope_of_update {a : Arena} {f : Scope → Scope}
    (hf : ∀ s, (f s).declared = s.declared ∧ (f s).paramCount = s.paramCount) {x y : ScopeId} {t : Scope}
    (ht : (a.update x f).get? y = some t) :
    ∃ s, a.get? y = some s ∧ t.declared = s.declared ∧ t.paramCount = s.paramCount := by
  rw [get?_update] at ht
  split at ht
  · obtain ⟨s, hs, rfl⟩ := Option.map_eq_some_iff.1 ht
    exact ⟨s, hs, hf s⟩
  · exact ⟨t, ht, rfl, rfl⟩

theorem Kept.report (hk : h.Kept) (id : ScopeId) (position : Position) (text : String) :
    Kept { h with indexed := h.indexed.report id position text } :=
  hk.arena (hk.faithful.report id position text) (fills_report _ _ _ _) fun _ _ ht =>
    scope_of_update (fun s => by obtain ⟨kind, declared, count⟩ := s; cases kind <;> exact ⟨rfl, rfl⟩) ht

theorem Kept.addExport (hk : h.Kept) (id : ScopeId) (name : String) (ty : Ty) (position : Position) :
    (h.addExport id name ty position).Kept := by
  refine hk.arena (hk.faithful.addExport id name ty position) (fills_addExport _ _ _ _ _) fun y t ht => ?_
  have hsame {f : Scope → Scope} (hf : ∀ s, (f s).declared = s.declared ∧ (f s).paramCount = s.paramCount)
      {x : ScopeId} (ht : (h.indexed.arena.update x f).get? y = some t) := scope_of_update hf ht
  unfold Arena.addExport at ht
  split at ht
  · exact hsame (fun s => by obtain ⟨kind, declared, count⟩ := s; cases kind <;> exact ⟨rfl, rfl⟩) ht
  split at ht
  · exact hsame (fun s => by obtain ⟨kind, declared, count⟩ := s; cases kind <;> exact ⟨rfl, rfl⟩) ht
  · exact hsame (fun s => by obtain ⟨kind, declared, count⟩ := s; cases kind <;> exact ⟨rfl, rfl⟩) ht

/-- a scope that is opened has no variables -/
theorem Kept.add (hk : h.Kept) {kind : ScopeKind}
    (hordered : (h.indexed.arena.add (.ofKind kind)).2.Ordered) :
    Kept { h with indexed := ⟨(h.indexed.arena.add (.ofKind kind)).2, h.indexed.names.push .empty⟩ } := by
  refine ⟨hk.faithful.add kind, hordered, hk.increasing, fun d hd => ?_, fun id s hs => ?_⟩
  · rw [size_add]
    exact ⟨Nat.lt_succ_of_lt (hk.within d hd).1, (hk.within d hd).2⟩
  · rw [get?_add] at hs
    split at hs
    · next hid =>
      cases hs
      have hnone (parameter : Bool) : h.madeIn id parameter = [] := by
        refine List.map_eq_nil_iff.2 (List.filter_eq_nil_iff.2 fun d hd hscope => ?_)
        have hlt := (hk.within d hd).1
        simp only [decide_eq_true_eq] at hscope
        exact absurd hlt (by rw [hscope.1, hid]; exact Nat.lt_irrefl _)
      change [] = h.madeIn id true ++ h.madeIn id false ∧ 0 = (h.madeIn id true).length
      rw [hnone, hnone]
      exact ⟨rfl, rfl⟩
    · exact hk.declared id s hs

theorem madeIn_append (x : Indexed) (h : History) (d : Made) (id : ScopeId) (parameter : Bool) :
    (⟨x, h.made ++ [d]⟩ : History).madeIn id parameter =
      h.madeIn id parameter ++ if d.scope = id ∧ d.parameter = parameter then [d.declared] else [] := by
  unfold madeIn
  rw [List.filter_append, List.map_append]
  congr 1
  by_cases hd : d.scope = id ∧ d.parameter = parameter <;> simp [hd]

/-- what declaring comes to: the name was there, or a variable is made -/
theorem declare_eq (h : History) (parameter : Bool) (id : ScopeId) (name : String) (ty : Ty) (position : Position) :
    h.declare parameter id name ty position =
      if (h.indexed.index? id name).isSome then
        { h with indexed := h.indexed.report id position ("'" ++ name ++ "' is already declared") }
      else
        let arena := h.indexed.arena.extend id name ty
        ⟨⟨if parameter then arena.update id Scope.countParameter else arena,
          h.indexed.names.modify id fun table => table.insert name (h.indexed.arena.declaredCount id)⟩,
          h.made ++ [⟨id, parameter, ⟨ty, ⟨h.indexed.arena.nextCell, name⟩⟩⟩]⟩ := by
  unfold declare Indexed.newParameter Indexed.newVariable
  cases h.indexed.index? id name <;> cases parameter <;> simp

/-- a scope before a variable was made: where it is the variable's own, it has the variable behind its others now -/
theorem scope_of_extend {a : Arena} {x y : ScopeId} {name : String} {ty : Ty} {t : Scope}
    (ht : (a.extend x name ty).get? y = some t) : ∃ s, a.get? y = some s ∧ t.paramCount = s.paramCount ∧
      t.declared = s.declared ++ if x = y then [⟨ty, ⟨a.nextCell, name⟩⟩] else [] := by
  rw [get?_extend] at ht
  split at ht
  · next hy =>
    obtain ⟨s, hs, rfl⟩ := Option.map_eq_some_iff.1 ht
    exact ⟨s, hs, rfl, by rw [if_pos hy]⟩
  · next hy => exact ⟨t, ht, rfl, by rw [if_neg hy, List.append_nil]⟩

section

variable (a : Arena) (parameter : Bool) (x : ScopeId) (name : String) (ty : Ty)

theorem fills_declared :
    a.Fills (if parameter then (a.extend x name ty).update x Scope.countParameter else a.extend x name ty) := by
  split
  · exact (fills_extend a x name ty).trans (fills_update fun s => ⟨.refl s.kind, List.prefix_refl s.declared⟩)
  · exact fills_extend a x name ty

theorem nextCell_declared :
    (if parameter then (a.extend x name ty).update x Scope.countParameter else a.extend x name ty).nextCell =
      a.nextCell + 1 := by
  split <;> rfl

variable {a parameter x name ty}

/-- a scope before a variable or a parameter was made -/
theorem scope_of_declared {y : ScopeId} {t : Scope}
    (ht : (if parameter then (a.extend x name ty).update x Scope.countParameter
      else a.extend x name ty).get? y = some t) :
    ∃ s, a.get? y = some s ∧ t.paramCount = s.paramCount + (if parameter ∧ x = y then 1 else 0) ∧
      t.declared = s.declared ++ if x = y then [⟨ty, ⟨a.nextCell, name⟩⟩] else [] := by
  cases parameter with
  | false =>
    obtain ⟨s, hs, hparams, hdeclared⟩ := scope_of_extend ht
    exact ⟨s, hs, by simpa using hparams, hdeclared⟩
  | true =>
    simp only [if_true] at ht
    rw [get?_update] at ht
    split at ht
    · next hy =>
      obtain ⟨u, hu, rfl⟩ := Option.map_eq_some_iff.1 ht
      obtain ⟨s, hs, hparams, hdeclared⟩ := scope_of_extend hu
      exact ⟨s, hs, by simp [Scope.countParameter, hparams, hy], hdeclared⟩
    · next hy =>
      obtain ⟨s, hs, hparams, hdeclared⟩ := scope_of_extend ht
      exact ⟨s, hs, by simp [hparams, hy], hdeclared⟩

end

theorem Kept.declare (hk : h.Kept) (parameter : Bool) (hid : id < h.indexed.arena.scopes.size)
    (hfirst : parameter = true → h.madeIn id false = []) (name : String) (ty : Ty) (position : Position) :
    (h.declare parameter id name ty position).Kept := by
  rw [declare_eq]
  split
  · exact hk.report id position _
  next hnew =>
  have hnone : h.indexed.index? id name = none := by simpa using hnew
  have hfills := fills_declared h.indexed.arena parameter id name ty
  refine ⟨?_, hk.ordered.fills hfills, ?_, fun d hd => ?_, fun y t ht => ?_⟩
  · cases parameter with
    | false => exact hk.faithful.extend hnone ty
    | true => exact Indexed.Faithful.update (hk.faithful.extend hnone ty) (f := Scope.countParameter) (fun _ => rfl) id
  · refine List.pairwise_append.2 ⟨hk.increasing, List.pairwise_singleton _ _, fun d hd e he => ?_⟩
    rw [List.mem_singleton.1 he]
    exact (hk.within d hd).2
  · dsimp only
    rw [hfills.size, nextCell_declared]
    rcases List.mem_append.1 hd with hd | hd
    · exact ⟨(hk.within d hd).1, Nat.lt_succ_of_lt (hk.within d hd).2⟩
    · rw [List.mem_singleton.1 hd]
      exact ⟨hid, Nat.lt_succ_self _⟩
  -- a variable is the last of its scope: of the parameters, where the scope has no other variables yet
  · obtain ⟨s, hs, hparams, hdeclared⟩ := scope_of_declared ht
    obtain ⟨hmade, hcount⟩ := hk.declared y s hs
    rw [madeIn_append, madeIn_append, hparams, hdeclared]
    by_cases hy : id = y
    · subst hy
      cases parameter with
      | false => simp [hmade, hcount]
      | true =>
        rw [hfirst rfl, List.append_nil] at hmade
        simp [hmade, hcount, hfirst rfl]
    · simp [hy, hmade, hcount]

theorem size_declare (h : History) (parameter : Bool) (id : ScopeId) (name : String) (ty : Ty) (position : Position) :
    (h.declare parameter id name ty position).indexed.arena.scopes.size = h.indexed.arena.scopes.size := by
  rw [declare_eq]
  split
  · exact (fills_report _ _ _ _).size
  · cases parameter
    · exact (fills_extend _ _ _ _).size
    · exact (size_update _ _ _).trans (fills_extend _ _ _ _).size

theorem Kept.provide (hk : h.Kept) (hid : id < h.indexed.arena.scopes.size) (exports : List (String × Ty)) :
    (exports.foldl (provide id) h).Kept := by
  induction exports generalizing h with
  | nil => exact hk
  | cons e exports ih =>
    have hmade := hk.declare false hid (fun hp => nomatch hp) e.1 e.2 .null
    have hsize := size_declare h false id e.1 e.2 .null
    exact ih (hmade.addExport id e.1 e.2 .null) (((fills_addExport _ _ _ _ _).size.trans hsize).symm ▸ hid)

theorem ordered_newGlobal {a : Arena} (ha : a.Ordered) : a.newGlobal.2.Ordered := by
  intro x y hy
  obtain ⟨s, signature, hs, hkind⟩ := parent?_eq_some_iff.1 hy
  unfold Arena.newGlobal at hs
  rw [get?_add] at hs
  split at hs
  · cases hs
    cases hkind
  · exact ha x y (parent?_eq_some_iff.2 ⟨s, signature, hs, hkind⟩)

theorem Kept.newGlobal (hk : h.Kept) : Kept { h with indexed := h.indexed.newGlobal.2 } :=
  hk.add (ordered_newGlobal hk.ordered)

/-- a module's scope is there once it is opened -/
theorem lt_newGlobal (h : History) : h.indexed.newGlobal.1 < h.indexed.newGlobal.2.arena.scopes.size := by
  change h.indexed.arena.scopes.size < (h.indexed.arena.add _).2.scopes.size
  rw [size_add]
  exact Nat.lt_succ_self _

theorem Kept.step (hk : h.Kept) {operation : Operation} (ha : h.Allows operation) : (h.step operation).Kept := by
  cases operation with
  | newGlobal => exact hk.newGlobal
  | newLocal parent signature => exact hk.add (hk.ordered.newLocal (ha.valid parent rfl) signature)
  | newNative exports =>
    exact (hk.newGlobal).provide (lt_newGlobal h) exports
  | newVariable id name ty position =>
    exact hk.declare false (ha.valid id rfl) (fun hp => nomatch hp) name ty position
  | newParameter id name ty position =>
    exact hk.declare true (ha.valid id rfl) (fun _ => ha.before id rfl) name ty position
  | addExport id name ty position => exact hk.addExport id name ty position
  | report id position text => exact hk.report id position text

theorem Kept.run (hk : h.Kept) {operations : List Operation} (ha : h.AllowsAll operations) :
    (h.run operations).Kept := by
  induction operations generalizing h with
  | nil => exact hk
  | cons operation operations ih => exact ih (hk.step ha.1) ha.2

/-! ## Arenas that come of operations -/

/-- what holds of an arena and its scopes, and of the variables that were made -/
structure Consistent (h : History) : Prop where
  /-- cells grow in the order in which they are made -/
  increasing : (h.made.map fun d => d.declared.cell.id).Pairwise (· < ·)
  /-- no two variables of the arena share a cell -/
  distinct : ∀ x y s t, h.indexed.arena.get? x = some s → h.indexed.arena.get? y = some t →
    ∀ i j v w, s.variableAt? i = some v → t.variableAt? j = some w → v.cell.id = w.cell.id → x = y ∧ i = j
  /-- a name occurs once in a scope, at the place that the scope has for it -/
  names : ∀ x s, h.indexed.arena.get? x = some s → (s.declared.map fun v => v.cell.name).Nodup ∧
    ∀ name i, h.indexed.index? x name = some i ↔ ∃ v, s.variableAt? i = some v ∧ v.cell.name = name
  /-- the parameters and the other variables of a scope are those that were made as such, in their order -/
  params : ∀ x s, h.indexed.arena.get? x = some s → s.parameters = h.madeIn x true ∧ s.locals = h.madeIn x false
  parent : ∀ x y, h.indexed.arena.parent? x = some y → y < x
  /-- a chain goes from parent to parent and ends at the root, which is a global scope -/
  chain : ∀ x < h.indexed.arena.scopes.size, h.indexed.arena.isGlobal (h.indexed.arena.root x) = true ∧
    ∃ inner, h.indexed.arena.chain x = inner ++ [h.indexed.arena.root x] ∧
      (h.indexed.arena.chain x).head? = some x ∧
      (h.indexed.arena.chain x).IsChain fun y z => h.indexed.arena.parent? y = some z
  /-- a name means the variable of the innermost scope that declares it -/
  lookup : ∀ x name v, h.indexed.lookup? x name = some v ↔ ∃ inner y outer s,
    h.indexed.arena.chain x = inner ++ y :: outer ∧ (∀ z ∈ inner, h.indexed.arena.hasVariable z name = false) ∧
      h.indexed.arena.get? y = some s ∧ v ∈ s.declared ∧ v.cell.name = name

/-- a variable of a scope was made there -/
theorem Kept.mem_made (hk : h.Kept) (hs : h.indexed.arena.get? id = some s) {v : Variable} (hv : v ∈ s.declared) :
    ∃ d ∈ h.made, d.scope = id ∧ d.declared = v := by
  have hmade {parameter : Bool} (hv : v ∈ h.madeIn id parameter) : ∃ d ∈ h.made, d.scope = id ∧ d.declared = v := by
    obtain ⟨d, hd, rfl⟩ := List.mem_map.1 hv
    obtain ⟨hd, hscope⟩ := List.mem_filter.1 hd
    exact ⟨d, hd, (of_decide_eq_true hscope).1, rfl⟩
  rw [(hk.declared id s hs).1] at hv
  rcases List.mem_append.1 hv with hv | hv
  · exact hmade hv
  · exact hmade hv

/-- what was made with one cell was made once -/
theorem Kept.made_unique (hk : h.Kept) {d e : Made} (hd : d ∈ h.made) (he : e ∈ h.made)
    (hcell : d.declared.cell.id = e.declared.cell.id) : d = e := by
  by_contra hne
  obtain ⟨i, hi, rfl⟩ := List.mem_iff_getElem.1 hd
  obtain ⟨j, hj, rfl⟩ := List.mem_iff_getElem.1 he
  have hincreasing := List.pairwise_iff_getElem.1 hk.increasing
  rcases Nat.lt_trichotomy i j with hij | rfl | hij
  · exact absurd hcell (Nat.ne_of_lt (hincreasing i j hi hj hij))
  · exact hne rfl
  · exact absurd hcell.symm (Nat.ne_of_lt (hincreasing j i hj hi hij))

theorem Kept.nodup_names (hk : h.Kept) (hs : h.indexed.arena.get? id = some s) :
    (s.declared.map fun v => v.cell.name).Nodup := by
  rw [List.nodup_iff_pairwise_ne, List.pairwise_map, List.pairwise_iff_getElem]
  intro i j hi hj hij hname
  have hplace := hk.faithful.places id s hs s.declared[i].cell.name
  have hfirst := (hplace i).2 ⟨_, List.getElem?_eq_getElem hi, rfl⟩
  have hsecond := (hplace j).2 ⟨_, List.getElem?_eq_getElem hj, hname.symm⟩
  rw [hfirst, Option.some.injEq] at hsecond
  exact absurd hsecond (Nat.ne_of_lt hij)

/-- the root of a scope is a global scope -/
theorem isGlobal_root {a : Arena} (ha : a.Ordered) {x : ScopeId} (hx : x < a.scopes.size) :
    a.isGlobal (a.root x) = true := by
  induction x using Nat.strongRecOn with
  | ind x ih =>
    cases hp : a.parent? x with
    | some y =>
      rw [root_of_parent? ha hp]
      exact ih y (ha x y hp) (Nat.lt_trans (ha x y hp) hx)
    | none =>
      have hglobal : a.isGlobal x = true := by
        obtain ⟨s, hs⟩ := get?_of_lt hx
        refine isGlobal_iff.2 ⟨s, hs, ?_⟩
        obtain ⟨kind, declared, count⟩ := s
        cases kind with
        | global exports found => rfl
        | «local» parent signature => rw [parent?_eq_some_iff.2 ⟨_, signature, hs, rfl⟩] at hp; cases hp
      rw [root_of_isGlobal ha hglobal]
      exact hglobal

/-- a chain goes from parent to parent and ends at the root -/
theorem chain_to_root {a : Arena} (ha : a.Ordered) {x : ScopeId} (hx : x < a.scopes.size) :
    ∃ inner, a.chain x = inner ++ [a.root x] ∧ (a.chain x).head? = some x ∧
      (a.chain x).IsChain fun y z => a.parent? y = some z := by
  induction x using Nat.strongRecOn with
  | ind x ih =>
    cases hp : a.parent? x with
    | some y =>
      obtain ⟨inner, hinner, hhead, hchain⟩ := ih y (ha x y hp) (Nat.lt_trans (ha x y hp) hx)
      rw [chain_of_parent? ha hp, root_of_parent? ha hp]
      refine ⟨x :: inner, by rw [hinner]; rfl, rfl, ?_⟩
      obtain ⟨rest, hrest⟩ := List.head?_eq_some_iff.1 hhead
      rw [hrest] at hchain ⊢
      exact .cons_cons hp hchain
    | none =>
      have hchain : a.chain x = [x] := by rw [chain_eq ha hx, hp]
      rw [root, hchain]
      exact ⟨[], rfl, rfl, .singleton x⟩

/-- a name means the variable of the innermost scope that declares it -/
theorem Kept.lookup_iff (hk : h.Kept) (x : ScopeId) (name : String) (v : Variable) :
    h.indexed.lookup? x name = some v ↔ ∃ inner y outer s,
      h.indexed.arena.chain x = inner ++ y :: outer ∧ (∀ z ∈ inner, h.indexed.arena.hasVariable z name = false) ∧
        h.indexed.arena.get? y = some s ∧ v ∈ s.declared ∧ v.cell.name = name := by
  rw [Indexed.lookup?_eq hk.faithful, lookup?, List.findSome?_eq_some_iff]
  have hnone (z : ScopeId) : ((h.indexed.arena.get? z).bind fun s => s.find? name) = none ↔
      h.indexed.arena.hasVariable z name = false := by
    unfold hasVariable
    cases (h.indexed.arena.get? z).bind fun s => s.find? name <;> simp
  -- a scope has one variable of the name, which is then the one that is found
  have hsome (y : ScopeId) : ((h.indexed.arena.get? y).bind fun s => s.find? name) = some v ↔
      ∃ s, h.indexed.arena.get? y = some s ∧ v ∈ s.declared ∧ v.cell.name = name := by
    rw [Option.bind_eq_some_iff]
    refine exists_congr fun s => and_congr_right fun hs => ⟨fun hv => ?_, ?_⟩
    · exact ⟨List.mem_of_find?_eq_some hv, by simpa using List.find?_some hv⟩
    · rintro ⟨hv, hname⟩
      obtain ⟨i, hi⟩ := List.getElem?_of_mem hv
      have hplace := (hk.faithful.places y s hs name i).2 ⟨v, hi, hname⟩
      rw [Indexed.index?_eq hk.faithful, hs, Option.bind_some] at hplace
      unfold Scope.find?
      rw [List.find?_eq_bind_findIdx?_getElem?]
      unfold Scope.variableIndex? at hplace
      rw [hplace]
      exact hi
  constructor
  · rintro ⟨inner, y, outer, hchain, hv, hinner⟩
    obtain ⟨s, hs, hmem, hname⟩ := (hsome y).1 hv
    exact ⟨inner, y, outer, s, hchain, fun z hz => (hnone z).1 (hinner z hz), hs, hmem, hname⟩
  · rintro ⟨inner, y, outer, s, hchain, hinner, hs, hmem, hname⟩
    exact ⟨inner, y, outer, hchain, (hsome y).2 ⟨s, hs, hmem, hname⟩, fun z hz => (hnone z).2 (hinner z hz)⟩

theorem Kept.consistent (hk : h.Kept) : h.Consistent := by
  refine ⟨List.pairwise_map.2 hk.increasing, ?_, fun x s hs => ⟨hk.nodup_names hs, hk.faithful.places x s hs⟩, ?_,
    hk.ordered, fun x hx => ⟨isGlobal_root hk.ordered hx, chain_to_root hk.ordered hx⟩, hk.lookup_iff⟩
  · intro x y s t hs ht i j v w hv hw hcell
    obtain ⟨d, hd, rfl, rfl⟩ := hk.mem_made hs (List.mem_of_getElem? hv)
    obtain ⟨e, he, rfl, rfl⟩ := hk.mem_made ht (List.mem_of_getElem? hw)
    obtain rfl := hk.made_unique hd he hcell
    obtain rfl : s = t := Option.some.inj (hs.symm.trans ht)
    -- within the scope the place follows from the name
    have hplace := hk.faithful.places d.scope s hs d.declared.cell.name
    have hfirst := (hplace i).2 ⟨_, hv, rfl⟩
    rw [(hplace j).2 ⟨_, hw, rfl⟩, Option.some.injEq] at hfirst
    exact ⟨rfl, hfirst.symm⟩
  · intro x s hs
    obtain ⟨hdeclared, hcount⟩ := hk.declared x s hs
    simp [Scope.parameters, Scope.locals, hdeclared, hcount]

/-! ## The operations of an arena -/

theorem provided_arena (hk : h.Kept) (hid : id < h.indexed.arena.scopes.size) (exports : List (String × Ty)) :
    (exports.foldl (provide id) h).indexed.arena =
      exports.foldl (fun a e => ((a.newVariable id e.1 e.2 .null).2.addExport id e.1 e.2 .null).2) h.indexed.arena := by
  induction exports generalizing h with
  | nil => rfl
  | cons e exports ih =>
    have hmade := hk.declare false hid (fun hp => nomatch hp) e.1 e.2 .null
    have hsize := size_declare h false id e.1 e.2 .null
    have hnew := congrArg Prod.snd (Indexed.newVariable_eq hk.faithful id e.1 e.2 .null)
    rw [List.foldl_cons, List.foldl_cons, ← hnew]
    exact ih (hmade.addExport id e.1 e.2 .null) (((fills_addExport _ _ _ _ _).size.trans hsize).symm ▸ hid)

theorem Kept.step_arena (hk : h.Kept) (operation : Operation) :
    (h.step operation).indexed.arena = operation.apply h.indexed.arena := by
  cases operation with
  | newGlobal | newLocal | addExport | report => rfl
  | newNative exports =>
    exact provided_arena hk.newGlobal (lt_newGlobal h) exports
  | newVariable id name ty position => exact congrArg Prod.snd (Indexed.newVariable_eq hk.faithful id name ty position)
  | newParameter id name ty position =>
    exact congrArg Prod.snd (Indexed.newParameter_eq hk.faithful id name ty position)

theorem Kept.run_arena (hk : h.Kept) {operations : List Operation} (ha : h.AllowsAll operations) :
    (h.run operations).indexed.arena = operations.foldl Operation.apply h.indexed.arena := by
  induction operations generalizing h with
  | nil => rfl
  | cons operation operations ih =>
    rw [List.foldl_cons, ← hk.step_arena operation]
    exact ih (hk.step ha.1) ha.2

end History

namespace Indexed

variable {x : Indexed}

/-- the answers are those of the arena without tables -/
structure AnswersAlike (x : Indexed) : Prop where
  newVariable : ∀ id name ty position,
    ((x.newVariable id name ty position).1, (x.newVariable id name ty position).2.arena) =
      x.arena.newVariable id name ty position
  newParameter : ∀ id name ty position,
    ((x.newParameter id name ty position).1, (x.newParameter id name ty position).2.arena) =
      x.arena.newParameter id name ty position
  index : ∀ id name, x.index? id name = (x.arena.get? id).bind fun s => s.variableIndex? name
  lookup : ∀ id name, x.lookup? id name = x.arena.lookup? id name

theorem Faithful.answersAlike (h : x.Faithful) : x.AnswersAlike :=
  ⟨newVariable_eq h, newParameter_eq h, index?_eq h, lookup?_eq h⟩

/-! ## What is refused -/

/-- nothing has changed but for one more diagnostic, behind the others, on the global scope around a scope -/
structure Reported (x : Indexed) (id : ScopeId) (y : Indexed) : Prop where
  names : y.names = x.names
  nextCell : y.arena.nextCell = x.arena.nextCell
  others : ∀ z, z ≠ x.arena.root id → y.arena.get? z = x.arena.get? z
  root : ∃ s exports found d, x.arena.get? (x.arena.root id) = some s ∧ s.kind = .global exports found ∧
    y.arena.get? (x.arena.root id) = some { s with kind := .global exports (found ++ [d]) }

/-- a name that is there gets no cell, an export that cannot be is not added, and either is only reported -/
structure Refuses (x : Indexed) : Prop where
  newVariable : ∀ id name ty position, id < x.arena.scopes.size →
    ((x.newVariable id name ty position).1 = none ↔ x.arena.hasVariable id name = true) ∧
      ((x.newVariable id name ty position).1 = none → x.Reported id (x.newVariable id name ty position).2)
  newParameter : ∀ id name ty position, id < x.arena.scopes.size →
    ((x.newParameter id name ty position).1 = none ↔ x.arena.hasVariable id name = true) ∧
      ((x.newParameter id name ty position).1 = none → x.Reported id (x.newParameter id name ty position).2)
  addExport : ∀ id name ty position, id < x.arena.scopes.size →
    ((x.addExport id name ty position).1 = false ↔
      (x.arena.export? id name).isSome = true ∨ x.arena.isGlobal id = false) ∧
      ((x.addExport id name ty position).1 = false → x.Reported id (x.addExport id name ty position).2)

theorem reported_report (ha : x.arena.Ordered) {id : ScopeId} (hid : id < x.arena.scopes.size) (position : Position)
    (text : String) : x.Reported id (x.report id position text) := by
  refine ⟨rfl, rfl, fun z hz => ?_, ?_⟩
  · unfold report Arena.report
    rw [get?_update, if_neg hz.symm]
  · obtain ⟨s, found, hs, hkind⟩ := exports_of_isGlobal (History.isGlobal_root ha hid)
    refine ⟨s, _, found, ⟨position, text⟩, hs, hkind, ?_⟩
    unfold report Arena.report
    rw [get?_update, if_pos rfl, hs, Option.map_some, hkind]

theorem Faithful.refuses (h : x.Faithful) (ha : x.arena.Ordered) : x.Refuses := by
  have hvar (id : ScopeId) (name : String) := hasVariable_eq h id name
  refine ⟨fun id name ty position hid => ?_, fun id name ty position hid => ?_, fun id name ty position hid => ?_⟩
  · unfold Indexed.newVariable
    rw [hvar]
    cases x.index? id name with
    | some i => exact ⟨by simp, fun _ => reported_report ha hid position _⟩
    | none => exact ⟨by simp, fun hnone => nomatch hnone⟩
  · unfold Indexed.newParameter Indexed.newVariable
    rw [hvar]
    cases x.index? id name with
    | some i => exact ⟨by simp, fun _ => reported_report ha hid position _⟩
    | none => exact ⟨by simp, fun hnone => nomatch hnone⟩
  · unfold Indexed.addExport Arena.addExport
    split
    · next hexport => exact ⟨by simp [hexport], fun _ => reported_report ha hid position _⟩
    split
    · next hexport hglobal => exact ⟨by simpa [hexport] using hglobal, fun _ => reported_report ha hid position _⟩
    · next hexport hglobal => exact ⟨by simpa [hexport] using hglobal, fun hfalse => nomatch hfalse⟩

end Indexed

/-- After any operations that are about scopes there are and give a scope its parameters before its other variables, the
arena is what the operations make of it, it is consistent, and what is refused is only reported. -/
theorem histories_consistent {operations : List Operation} (h : History.empty.AllowsAll operations) :
    (History.empty.run operations).indexed.arena = operations.foldl Operation.apply empty ∧
    (History.empty.run operations).indexed.AnswersAlike ∧
    (History.empty.run operations).Consistent ∧
    (History.empty.run operations).indexed.Refuses := by
  have hkept := History.kept_empty.run h
  exact ⟨History.kept_empty.run_arena h, hkept.faithful.answersAlike, hkept.consistent,
    hkept.faithful.refuses hkept.ordered⟩

/-- a module with a function whose parameter is declared once more, exports of both, and a native module with a builtin
that it has twice -/
def mixed : List Operation :=
  [.newGlobal, .newLocal 0 ⟨[.int], .void⟩, .newParameter 1 "n" .int .null, .newVariable 0 "n" .str .null,
    .newVariable 1 "n" .bool .null, .newVariable 1 "m" .int .null, .addExport 0 "n" .str .null,
    .addExport 1 "m" .int .null, .newNative [("f", .any), ("f", .int)], .report 1 .null ""]

theorem histories_consistent_mixed : History.empty.AllowsAll mixed ∧
    (History.empty.run mixed).made.map (fun d => (d.scope, d.parameter, d.declared.cell)) =
      [(1, true, ⟨0, "n"⟩), (0, false, ⟨1, "n"⟩), (1, false, ⟨2, "m"⟩), (2, false, ⟨3, "f"⟩)] ∧
    (History.empty.run mixed).Consistent := by
  have hallowed : History.empty.AllowsAll mixed := by decide +kernel
  exact ⟨hallowed, by decide +kernel, (histories_consistent hallowed).2.2.1⟩

end TypedScript.Arena
