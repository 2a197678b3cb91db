/-
An arena behind another one. `a.append m` has the scopes of `a` and behind them those of `m`, moved: their ids by the
number of scopes in `a`, their cells by the number of cells given out there. Whatever is asked of a moved scope has the
answer it has in `m`, moved, and whatever is done to one is done to `m`; the scopes of `a` stay as they are.

- `Arena.get?_append_left`, `Arena.get?_append_right`: the scopes of both arenas.
- `Arena.lookup?_append`, `Arena.diagnostics_append`, ...: what is asked of a moved scope.
- `Arena.report_append`, `Arena.newVariable_append`, ...: what is done to a moved scope.
- `Arena.Fills`: what an arena may become while no scope is added to it; it stays ordered.
-/
import TypedScript.Table
import TypedScript.Proofs.Typing.Arena.Moves

namespace TypedScript

/-! ## Moved scopes -/

/-- a cell whose number is moved -/
def Cell.moved (cells : Nat) (c : Cell) : Cell := { c with id := cells + c.id }

def Variable.moved (cells : Nat) (v : Variable) : Variable := { v with cell := v.cell.moved cells }

def ScopeKind.moved (scopes : Nat) : ScopeKind → ScopeKind
  | .global exports diagnostics => .global exports diagnostics
  | .local parent signature => .local (scopes + parent) signature

/-- a scope whose place and whose cells are moved -/
def Scope.moved (scopes cells : Nat) (s : Scope) : Scope :=
  ⟨s.kind.moved scopes, s.declared.map (Variable.moved cells), s.paramCount⟩

/-- ids of scopes, moved -/
def Table.moved {κ : Type} (scopes : Nat) (t : Table κ ScopeId) : Table κ ScopeId :=
  ⟨t.entries.map fun e => (e.1, scopes + e.2)⟩

theorem Table.insert_moved {κ : Type} [DecidableEq κ] (scopes : Nat) (t : Table κ ScopeId) (key : κ) (id : ScopeId) :
    (t.moved scopes).insert key (scopes + id) = (t.insert key id).moved scopes := by
  obtain ⟨entries⟩ := t
  simp only [Table.moved, Table.insert, Table.mk.injEq]
  induction entries with
  | nil => rfl
  | cons e entries ih =>
    simp only [List.map_cons, insertEntry]
    split
    · rfl
    · rw [ih, List.map_cons]

@[simp] theorem Table.keys_moved {κ : Type} (scopes : Nat) (t : Table κ ScopeId) : (t.moved scopes).keys = t.keys := by
  simp [Table.keys, Table.moved]

theorem Scope.find?_moved (scopes cells : Nat) (s : Scope) (name : String) :
    (s.moved scopes cells).find? name = (s.find? name).map (Variable.moved cells) := by
  simp only [Scope.find?, Scope.moved, List.find?_map]
  rfl

@[simp] theorem Scope.isGlobal_moved (scopes cells : Nat) (s : Scope) :
    (s.moved scopes cells).isGlobal = s.isGlobal := by
  obtain ⟨kind, declared, count⟩ := s
  cases kind <;> rfl

/-- a scope with one more variable -/
def Scope.declare (v : Variable) (s : Scope) : Scope := { s with declared := s.declared ++ [v] }

/-- a scope with one more of its variables counted as a parameter -/
def Scope.countParameter (s : Scope) : Scope := { s with paramCount := s.paramCount + 1 }

theorem Scope.declare_moved (scopes cells : Nat) (v : Variable) (s : Scope) :
    (s.moved scopes cells).declare (v.moved cells) = (s.declare v).moved scopes cells := by
  simp [declare, moved]

theorem Scope.countParameter_moved (scopes cells : Nat) (s : Scope) :
    (s.moved scopes cells).countParameter = s.countParameter.moved scopes cells := rfl

namespace Arena

/-! ## Arenas behind one another -/

/-- the scopes of an arena and, moved, those of another one -/
def append (a m : Arena) : Arena :=
  ⟨a.scopes ++ m.scopes.map (Scope.moved a.scopes.size a.nextCell), a.nextCell + m.nextCell⟩

variable {a b m : Arena} {i x : Nat}

theorem eq_of_get? (h : ∀ x : Nat, a.get? x = b.get? x) (hcell : a.nextCell = b.nextCell) : a = b := by
  obtain ⟨scopes, next⟩ := a
  obtain ⟨scopes', next'⟩ := b
  obtain rfl : scopes = scopes' := Array.ext_getElem? h
  obtain rfl : next = next' := hcell
  rfl

@[simp] theorem size_append (a m : Arena) : (a.append m).scopes.size = a.scopes.size + m.scopes.size := by
  simp [append]

theorem get?_append_left (hx : x < a.scopes.size) : (a.append m).get? x = a.get? x :=
  Array.getElem?_append_left hx

theorem get?_append_right (a m : Arena) (i : Nat) :
    (a.append m).get? (a.scopes.size + i) = (m.get? i).map (Scope.moved a.scopes.size a.nextCell) := by
  simp [append, get?, Array.getElem?_append_right]

/-! ## What is asked of a moved scope -/

theorem parent?_append (a m : Arena) (i : Nat) :
    (a.append m).parent? (a.scopes.size + i) = (m.parent? i).map (a.scopes.size + ·) := by
  unfold parent?
  rw [get?_append_right]
  cases m.get? i with
  | none => rfl
  | some s =>
    obtain ⟨kind, declared, count⟩ := s
    cases kind <;> rfl

theorem signature?_append (a m : Arena) (i : Nat) :
    (a.append m).signature? (a.scopes.size + i) = m.signature? i := by
  unfold signature?
  rw [get?_append_right]
  cases m.get? i with
  | none => rfl
  | some s =>
    obtain ⟨kind, declared, count⟩ := s
    cases kind <;> rfl

theorem isGlobal_append (a m : Arena) (i : Nat) :
    (a.append m).isGlobal (a.scopes.size + i) = m.isGlobal i := by
  unfold isGlobal
  rw [get?_append_right]
  cases m.get? i <;> simp

theorem exports_append (a m : Arena) (i : Nat) : (a.append m).exports (a.scopes.size + i) = m.exports i := by
  unfold exports
  rw [get?_append_right]
  cases m.get? i with
  | none => rfl
  | some s =>
    obtain ⟨kind, declared, count⟩ := s
    cases kind <;> rfl

theorem exports_append_left (hx : x < a.scopes.size) : (a.append m).exports x = a.exports x := by
  unfold exports
  rw [get?_append_left hx]

theorem hasVariable_append (a m : Arena) (i : Nat) (name : String) :
    (a.append m).hasVariable (a.scopes.size + i) name = m.hasVariable i name := by
  unfold hasVariable
  rw [get?_append_right]
  cases m.get? i with
  | none => rfl
  | some s => simp [Scope.find?_moved]

theorem outward_append (a m : Arena) (count : Nat) (i : Nat) :
    (a.append m).outward count (a.scopes.size + i) = (m.outward count i).map (a.scopes.size + ·) := by
  induction count generalizing i with
  | zero => rfl
  | succ count ih =>
    simp only [outward, parent?_append, List.map_cons]
    cases m.parent? i with
    | none => rfl
    | some parent => simp only [Option.map_some, ih]

/-- the chain of a moved scope stays among the moved scopes -/
theorem chain_append (hm : m.Ordered) (hi : i < m.scopes.size) :
    (a.append m).chain (a.scopes.size + i) = (m.chain i).map (a.scopes.size + ·) := by
  rw [chain, outward_append, size_append, outward_eq hm (Nat.lt_add_left _ hi) hi, ← chain]

theorem root_append (hm : m.Ordered) (hi : i < m.scopes.size) :
    (a.append m).root (a.scopes.size + i) = a.scopes.size + m.root i := by
  rw [root, chain_append hm hi, List.getLast?_map, root]
  cases (m.chain i).getLast? <;> rfl

theorem lookup?_append (hm : m.Ordered) (hi : i < m.scopes.size) (name : String) :
    (a.append m).lookup? (a.scopes.size + i) name = (m.lookup? i name).map (Variable.moved a.nextCell) := by
  rw [lookup?, lookup?, chain_append hm hi, List.findSome?_map]
  induction m.chain i with
  | nil => rfl
  | cons s chain ih =>
    have hs : ((a.append m).get? (a.scopes.size + s)).bind (·.find? name) =
        ((m.get? s).bind (·.find? name)).map (Variable.moved a.nextCell) := by
      rw [get?_append_right]
      cases m.get? s with
      | none => rfl
      | some s => simp [Scope.find?_moved]
    simp only [List.findSome?_cons, Function.comp_apply, hs]
    cases (m.get? s).bind (·.find? name) with
    | none => exact ih
    | some v => rfl

theorem diagnostics_append (hm : m.Ordered) (hi : i < m.scopes.size) :
    (a.append m).diagnostics (a.scopes.size + i) = m.diagnostics i := by
  unfold diagnostics
  rw [root_append hm hi, get?_append_right]
  cases m.get? (m.root i) with
  | none => rfl
  | some s =>
    obtain ⟨kind, declared, count⟩ := s
    cases kind <;> rfl

/-! ## What is done to a moved scope -/

/-- a change of a moved scope is the change that it makes of the scope, moved -/
theorem update_append {f g : Scope → Scope}
    (h : ∀ s, f (s.moved a.scopes.size a.nextCell) = (g s).moved a.scopes.size a.nextCell) (i : Nat) :
    (a.append m).update (a.scopes.size + i) f = a.append (m.update i g) := by
  refine eq_of_get? (fun x => ?_) rfl
  rw [get?_update]
  rcases Nat.lt_or_ge x a.scopes.size with hx | hx
  · rw [if_neg (Nat.ne_of_gt (Nat.lt_add_right i hx)), get?_append_left hx, get?_append_left hx]
  · obtain ⟨j, rfl⟩ := Nat.exists_eq_add_of_le hx
    rw [get?_append_right, get?_append_right, get?_update]
    by_cases hij : i = j
    · subst hij
      rw [if_pos rfl, if_pos rfl, Option.map_map, Option.map_map]
      exact congrArg (Option.map · (m.get? i)) (funext h)
    · rw [if_neg fun heq => hij (Nat.add_left_cancel heq), if_neg hij]

theorem add_append (a m : Arena) (s : Scope) :
    (a.append m).add (s.moved a.scopes.size a.nextCell) = (a.scopes.size + (m.add s).1, a.append (m.add s).2) := by
  refine Prod.ext (size_append a m) (eq_of_get? (fun x => ?_) rfl)
  rw [get?_add, size_append]
  rcases Nat.lt_or_ge x a.scopes.size with hx | hx
  · rw [if_neg (Nat.ne_of_lt (Nat.lt_add_right _ hx)), get?_append_left hx, get?_append_left hx]
  · obtain ⟨j, rfl⟩ := Nat.exists_eq_add_of_le hx
    rw [get?_append_right, get?_append_right, get?_add]
    by_cases hj : j = m.scopes.size
    · rw [if_pos (congrArg (a.scopes.size + ·) hj), if_pos hj]
      rfl
    · rw [if_neg fun heq => hj (Nat.add_left_cancel heq), if_neg hj]

theorem newGlobal_append (a m : Arena) :
    (a.append m).newGlobal = (a.scopes.size + m.newGlobal.1, a.append m.newGlobal.2) :=
  add_append a m (.ofKind (.global [] []))

theorem append_empty (a : Arena) : a.append empty = a := by
  simp [append, empty]

theorem newLocal_append (a m : Arena) (i : Nat) (signature : Signature) :
    (a.append m).newLocal (a.scopes.size + i) signature =
      (a.scopes.size + (m.newLocal i signature).1, a.append (m.newLocal i signature).2) :=
  add_append a m (.ofKind (.local i signature))

theorem report_append (hm : m.Ordered) (hi : i < m.scopes.size) (position : Position) (text : String) :
    (a.append m).report (a.scopes.size + i) position text = a.append (m.report i position text) := by
  rw [report, root_append hm hi]
  refine update_append (fun s => ?_) _
  obtain ⟨kind, declared, count⟩ := s
  cases kind <;> rfl

theorem extend_append (a m : Arena) (i : Nat) (name : String) (ty : Ty) :
    (a.append m).extend (a.scopes.size + i) name ty = a.append (m.extend i name ty) := by
  have hdeclare := update_append (a := a) (m := m) (Scope.declare_moved _ _ ⟨ty, ⟨m.nextCell, name⟩⟩) i
  exact eq_of_get? (fun x => congrArg (Arena.get? · x) hdeclare :) (Nat.add_assoc _ _ _)

theorem newVariable_append (hm : m.Ordered) (hi : i < m.scopes.size) (name : String) (ty : Ty) (position : Position) :
    (a.append m).newVariable (a.scopes.size + i) name ty position =
      ((m.newVariable i name ty position).1.map (Cell.moved a.nextCell),
        a.append (m.newVariable i name ty position).2) := by
  have hvar := hasVariable_append a m i name
  cases h : m.hasVariable i name with
  | true =>
    rw [h] at hvar
    rw [newVariable_of_hasVariable hvar, newVariable_of_hasVariable h, report_append hm hi]
    rfl
  | false =>
    rw [h] at hvar
    rw [newVariable_of_not_hasVariable hvar, newVariable_of_not_hasVariable h, extend_append]
    rfl

theorem newParameter_append (hm : m.Ordered) (hi : i < m.scopes.size) (name : String) (ty : Ty)
    (position : Position) : (a.append m).newParameter (a.scopes.size + i) name ty position =
      ((m.newParameter i name ty position).1.map (Cell.moved a.nextCell),
        a.append (m.newParameter i name ty position).2) := by
  rw [newParameter_eq, newParameter_eq, hasVariable_append]
  split
  · rw [report_append hm hi]
    rfl
  · rw [extend_append]
    exact Prod.ext rfl (update_append (Scope.countParameter_moved _ _) i)

theorem addExport_append (hm : m.Ordered) (hi : i < m.scopes.size) (name : String) (ty : Ty) (position : Position) :
    (a.append m).addExport (a.scopes.size + i) name ty position =
      ((m.addExport i name ty position).1, a.append (m.addExport i name ty position).2) := by
  have hexport : (a.append m).export? (a.scopes.size + i) name = m.export? i name := by
    rw [export?, exports_append, export?]
  unfold addExport
  rw [hexport, isGlobal_append]
  split
  · rw [report_append hm hi]
  split
  · rw [report_append hm hi]
  · refine Prod.ext rfl (update_append (fun s => ?_) i)
    obtain ⟨kind, declared, count⟩ := s
    cases kind <;> rfl

/-! ## Arenas that no scope is added to -/

/-- an arena, and what it may be later on while no scope is added to it -/
structure Fills (a b : Arena) : Prop where
  later : a.Later b
  size : b.scopes.size = a.scopes.size

theorem Fills.trans {c : Arena} (h : a.Fills b) (h' : b.Fills c) : a.Fills c :=
  ⟨h.later.trans h'.later, h'.size.trans h.size⟩

/-- an arena stays ordered while no scope is added to it -/
theorem Ordered.fills (ha : a.Ordered) (h : a.Fills b) : b.Ordered := by
  intro x parent hp
  obtain ⟨s, signature, hs, -⟩ := parent?_eq_some_iff.1 hp
  exact ha x parent ((h.later.parent? (h.size ▸ lt_of_get? hs)).symm.trans hp)

theorem fills_update {id : ScopeId} {f : Scope → Scope} (h : ∀ s : Scope, s.Later (f s)) : a.Fills (a.update id f) :=
  ⟨later_update fun s _ => h s, size_update a id f⟩

theorem fills_extend (a : Arena) (id : ScopeId) (name : String) (ty : Ty) : a.Fills (a.extend id name ty) :=
  ⟨later_extend a id name ty, by simp [extend]⟩

theorem fills_report (a : Arena) (id : ScopeId) (position : Position) (text : String) :
    a.Fills (a.report id position text) := fills_update fun s => report_later s position text

theorem fills_newVariable (a : Arena) (id : ScopeId) (name : String) (ty : Ty) (position : Position) :
    a.Fills (a.newVariable id name ty position).2 := by
  cases h : a.hasVariable id name with
  | true => rw [newVariable_of_hasVariable h]; exact fills_report a id position _
  | false => rw [newVariable_of_not_hasVariable h]; exact fills_extend a id name ty

theorem fills_newParameter (a : Arena) (id : ScopeId) (name : String) (ty : Ty) (position : Position) :
    a.Fills (a.newParameter id name ty position).2 := by
  rw [newParameter_eq]
  split
  · exact fills_report a id position _
  · exact (fills_extend a id name ty).trans (fills_update fun s => ⟨.refl s.kind, List.prefix_refl s.declared⟩)

theorem fills_addExport (a : Arena) (id : ScopeId) (name : String) (ty : Ty) (position : Position) :
    a.Fills (a.addExport id name ty position).2 := by
  unfold addExport
  split
  · exact fills_report a id position _
  split
  · exact fills_report a id position _
  · refine fills_update fun s => ?_
    obtain ⟨kind, declared, count⟩ := s
    cases kind with
    | global exports found => exact ⟨.global (List.prefix_append _ _) (List.prefix_refl _), List.prefix_refl _⟩
    | «local» parent signature => exact .refl _

/-! ## Scopes that are opened -/

theorem Ordered.newLocal (ha : a.Ordered) {parent : ScopeId} (hparent : parent < a.scopes.size)
    (signature : Signature) : (a.newLocal parent signature).2.Ordered := by
  intro x y hy
  obtain ⟨s, signature', hs, hk⟩ := parent?_eq_some_iff.1 hy
  unfold Arena.newLocal at hs
  rw [get?_add] at hs
  split at hs
  · next hx =>
    cases hs
    cases hk
    exact hx ▸ hparent
  · exact ha x y (parent?_eq_some_iff.2 ⟨s, signature', hs, hk⟩)

end Arena

end TypedScript
