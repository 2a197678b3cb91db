/-
What the check of one part of a module does to an arena. It touches the scope the part stands in and, where something is
found wrong, the global scope of the module; the other scopes that were there stay as they are. `Arena.Moves` says so,
and there is one lemma for each operation of an arena.

- `Arena.moves_newVariable`, `Arena.moves_newParameter`, `Arena.moves_newLocal`, `Arena.moves_addExport`,
  `Arena.moves_report`: every operation is such a move.
- `Arena.report_unclean`: a report makes the module unclean.
-/
import TypedScript.Proofs.Typing.Arena

namespace TypedScript

namespace Arena

variable {a b c : Arena} {x y : ScopeId} {s : Scope}

/-- how many of a scope's variables are parameters -/
def paramCount (a : Arena) (x : ScopeId) : Nat := ((a.get? x).map Scope.paramCount).getD 0

/-- how many variables of a scope have been declared -/
def declaredCount (a : Arena) (x : ScopeId) : Nat := ((a.get? x).map fun s => s.declared.length).getD 0

theorem declaredCount_of_get? (hs : a.get? x = some s) : a.declaredCount x = s.declared.length := by
  unfold declaredCount
  rw [hs]
  rfl

/-- what the check of something in the scope `inner` of the module `module` does to an arena: of the first `base` scopes
it touches these two alone -/
structure Moves (inner module : ScopeId) (base : Nat) (a b : Arena) : Prop where
  wellFormed : b.WellFormed
  later : a.Later b
  frame : ∀ x < base, x ≠ inner → x ≠ module → b.get? x = a.get? x
  params : ∀ x < base, b.paramCount x = a.paramCount x

variable {inner inner' module : ScopeId} {base base' : Nat}

theorem Moves.refl (ha : a.WellFormed) : Moves inner module base a a :=
  ⟨ha, .refl a, fun _ _ _ _ => rfl, fun _ _ => rfl⟩

theorem Moves.trans (h : Moves inner module base a b) (h' : Moves inner module base b c) :
    Moves inner module base a c :=
  ⟨h'.wellFormed, h.later.trans h'.later, fun x hx hi hm => (h'.frame x hx hi hm).trans (h.frame x hx hi hm),
    fun x hx => (h'.params x hx).trans (h.params x hx)⟩

/-- a move in a scope that is not among the first ones touches less of them -/
theorem Moves.weaken (h : Moves inner' module base' a b) (hb : base ≤ base') (hi : inner' = inner ∨ base ≤ inner') :
    Moves inner module base a b := by
  refine ⟨h.wellFormed, h.later, fun x hx hx' hm => ?_, fun x hx => h.params x (Nat.lt_of_lt_of_le hx hb)⟩
  refine h.frame x (Nat.lt_of_lt_of_le hx hb) ?_ hm
  rcases hi with rfl | hi
  · exact hx'
  · exact Nat.ne_of_lt (Nat.lt_of_lt_of_le hx hi)

/-- a scope changes without a change of its variables -/
theorem moves_update (ha : a.WellFormed) {id : ScopeId} {f : Scope → Scope}
    (hf : ∀ s, a.get? id = some s → s.Later (f s) ∧ (f s).declared = s.declared ∧
      ∀ exports found, (f s).kind = .global exports found → ∀ e ∈ exports, ∃ v, s.find? e.1 = some v ∧ v.ty = e.2)
    (hcount : base ≤ id ∨ ∀ s, (f s).paramCount = s.paramCount) (hid : id = inner ∨ id = module ∨ base ≤ id) :
    Moves inner module base a (a.update id f) := by
  refine ⟨ha.update hf, later_update fun s hs => (hf s hs).1, fun x hx hi hm => ?_, fun x hx => ?_⟩
  · have hne : id ≠ x := by
      rintro rfl
      rcases hid with rfl | rfl | hid
      · exact hi rfl
      · exact hm rfl
      · exact absurd hx (Nat.not_lt.2 hid)
    rw [get?_update, if_neg hne]
  · unfold paramCount
    rw [get?_update]
    split
    · next hidx =>
      subst hidx
      rcases hcount with hcount | hcount
      · exact absurd hx (Nat.not_lt.2 hcount)
      · cases a.get? id with
        | none => rfl
        | some s => exact hcount s
    · rfl

/-! ### Reports -/

theorem report_later (s : Scope) (position : Position) (text : String) :
    s.Later (match s.kind with
      | .global exports found => { s with kind := .global exports (found ++ [⟨position, text⟩]) }
      | .local _ _ => s) := by
  obtain ⟨kind, declared, count⟩ := s
  cases kind with
  | global exports found => exact ⟨.global (List.prefix_refl _) (List.prefix_append _ _), List.prefix_refl _⟩
  | «local» parent signature => exact .refl _

theorem moves_report (ha : a.WellFormed) {id : ScopeId} (hroot : a.root id = module) (position : Position)
    (text : String) : Moves inner module base a (a.report id position text) := by
  unfold report
  refine moves_update ha (fun s hs => ⟨report_later s position text, ?_, ?_⟩) (Or.inr fun s => ?_)
    (Or.inr (Or.inl hroot))
  · split <;> rfl
  · intro exports found hkind
    split at hkind
    · next exports' found' hs' =>
      cases hkind
      exact ha.exported _ s _ _ hs hs'
    · next parent signature hs' => rw [hs'] at hkind; cases hkind
  · split <;> rfl

/-- a report makes a module unclean -/
theorem report_unclean (ha : a.WellFormed) {id : ScopeId} (hroot : a.root id = module)
    (hmodule : a.isGlobal module = true) (position : Position) (text : String) :
    (a.report id position text).diagnostics module ≠ [] := by
  have hmoves : Moves id module 0 a (a.report id position text) := moves_report ha hroot position text
  obtain ⟨s, exports, hs, hk⟩ := diagnostics_of_isGlobal ha.ordered hmodule
  obtain ⟨t, exports', ht, hk'⟩ :=
    diagnostics_of_isGlobal hmoves.wellFormed.ordered (hmoves.later.isGlobal_of hmodule)
  unfold report at ht
  rw [get?_update, if_pos hroot, hs] at ht
  simp only [Option.map_some, Option.some.injEq] at ht
  subst ht
  rw [hk] at hk'
  simp only [ScopeKind.global.injEq] at hk'
  rw [← hk'.2]
  simp

/-! ### Variables -/

theorem newVariable_of_hasVariable {id : ScopeId} {name : String} (h : a.hasVariable id name = true) (ty : Ty)
    (position : Position) :
    a.newVariable id name ty position = (none, a.report id position ("'" ++ name ++ "' is already declared")) := by
  rw [newVariable, if_pos h]

/-- an arena with one more variable in a scope -/
def extend (a : Arena) (id : ScopeId) (name : String) (ty : Ty) : Arena :=
  ⟨a.scopes.modify id fun s => { s with declared := s.declared ++ [⟨ty, ⟨a.nextCell, name⟩⟩] }, a.nextCell + 1⟩

theorem newVariable_of_not_hasVariable {id : ScopeId} {name : String} (h : a.hasVariable id name = false) (ty : Ty)
    (position : Position) :
    a.newVariable id name ty position = (some ⟨a.nextCell, name⟩, a.extend id name ty) := by
  rw [newVariable, if_neg (by simp [h])]
  rfl

theorem get?_extend (a : Arena) (id : ScopeId) (name : String) (ty : Ty) (x : ScopeId) :
    (a.extend id name ty).get? x =
      if id = x then (a.get? x).map fun s => { s with declared := s.declared ++ [⟨ty, ⟨a.nextCell, name⟩⟩] }
      else a.get? x := by
  simp only [get?, extend, Array.getElem?_modify]

theorem later_extend (a : Arena) (id : ScopeId) (name : String) (ty : Ty) : a.Later (a.extend id name ty) := by
  refine ⟨by simp [extend], by simp [extend], fun x s hs => ?_⟩
  rw [get?_extend]
  split
  · refine ⟨{ s with declared := s.declared ++ [⟨ty, ⟨a.nextCell, name⟩⟩] }, by rw [hs]; rfl, ?_⟩
    exact ⟨.refl _, List.prefix_append _ _⟩
  · exact ⟨s, hs, .refl s⟩

theorem wellFormed_extend (ha : a.WellFormed) (id : ScopeId) (name : String) (ty : Ty) :
    (a.extend id name ty).WellFormed := by
  have old {x : ScopeId} {t : Scope} (ht : (a.extend id name ty).get? x = some t) :
      ∃ s, a.get? x = some s ∧ s.Later t ∧ t.kind = s.kind ∧
        ∀ v ∈ t.declared, v ∈ s.declared ∨ (x = id ∧ v = ⟨ty, ⟨a.nextCell, name⟩⟩) := by
    rw [get?_extend] at ht
    split at ht
    · next hx =>
      obtain ⟨s, hs, rfl⟩ := Option.map_eq_some_iff.1 ht
      refine ⟨s, hs, ⟨.refl _, List.prefix_append _ _⟩, rfl, fun v hv => ?_⟩
      rcases List.mem_append.1 hv with hv | hv
      · exact Or.inl hv
      · exact Or.inr ⟨hx.symm, List.mem_singleton.1 hv⟩
    · exact ⟨t, ht, .refl t, rfl, fun v hv => Or.inl hv⟩
  refine ⟨?_, ?_, ?_, ?_⟩
  · intro x parent hp
    obtain ⟨t, signature, ht, hkind⟩ := parent?_eq_some_iff.1 hp
    obtain ⟨s, hs, _, hk, _⟩ := old ht
    exact ha.ordered x parent (parent?_eq_some_iff.2 ⟨s, signature, hs, hk ▸ hkind⟩)
  · intro x t ht v hv
    obtain ⟨s, hs, _, _, hd⟩ := old ht
    rcases hd v hv with hv | ⟨_, rfl⟩
    · exact Nat.lt_succ_of_lt (ha.fresh x s hs v hv)
    · exact Nat.lt_succ_self _
  · intro x y t u ht hu v hv w hw heq
    obtain ⟨s, hs, _, _, hd⟩ := old ht
    obtain ⟨s', hs', _, _, hd'⟩ := old hu
    rcases hd v hv with hv | ⟨hx, rfl⟩
    · rcases hd' w hw with hw | ⟨hy, rfl⟩
      · exact ha.distinct x y s s' hs hs' v hv w hw heq
      · exact absurd (ha.fresh x s hs v hv) (by rw [heq]; exact Nat.lt_irrefl _)
    · rcases hd' w hw with hw | ⟨hy, rfl⟩
      · exact absurd (ha.fresh y s' hs' w hw) (by rw [← heq]; exact Nat.lt_irrefl _)
      · exact ⟨hx.trans hy.symm, rfl⟩
  · intro x t exports found ht hkind e he
    obtain ⟨s, hs, hl, hk, _⟩ := old ht
    obtain ⟨v, hv, hty⟩ := ha.exported x s exports found hs (hk ▸ hkind) e he
    exact ⟨v, hl.find? hv, hty⟩

theorem moves_extend (ha : a.WellFormed) {id : ScopeId} (hid : id = inner ∨ id = module ∨ base ≤ id) (name : String)
    (ty : Ty) : Moves inner module base a (a.extend id name ty) := by
  refine ⟨wellFormed_extend ha id name ty, later_extend a id name ty, fun x hx hi hm => ?_, fun x hx => ?_⟩
  · have hne : id ≠ x := by
      rintro rfl
      rcases hid with rfl | rfl | hid
      · exact hi rfl
      · exact hm rfl
      · exact absurd hx (Nat.not_lt.2 hid)
    rw [get?_extend, if_neg hne]
  · unfold paramCount
    rw [get?_extend]
    split
    · cases a.get? x <;> rfl
    · rfl

theorem moves_newVariable (ha : a.WellFormed) {id : ScopeId} (hroot : a.root id = module)
    (hid : id = inner ∨ id = module ∨ base ≤ id) (name : String) (ty : Ty) (position : Position) :
    Moves inner module base a (a.newVariable id name ty position).2 := by
  cases h : a.hasVariable id name with
  | true => rw [newVariable_of_hasVariable h]; exact moves_report ha hroot _ _
  | false => rw [newVariable_of_not_hasVariable h]; exact moves_extend ha hid name ty

/-- a variable just declared is what its name means in the scope -/
theorem find?_extend {id : ScopeId} {name : String} (h : a.hasVariable id name = false) (hs : a.get? id = some s)
    (ty : Ty) :
    ∃ t, (a.extend id name ty).get? id = some t ∧ t.find? name = some ⟨ty, ⟨a.nextCell, name⟩⟩ := by
  refine ⟨_, by rw [get?_extend, if_pos rfl, hs]; rfl, ?_⟩
  have hnone : s.declared.find? (fun v => v.cell.name = name) = none := by
    unfold hasVariable at h
    rw [hs] at h
    simpa [Scope.find?] using h
  unfold Scope.find?
  rw [List.find?_append, hnone]
  simp

theorem newParameter_eq (a : Arena) (id : ScopeId) (name : String) (ty : Ty) (position : Position) :
    a.newParameter id name ty position =
      if a.hasVariable id name then (none, a.report id position ("'" ++ name ++ "' is already declared"))
      else (some ⟨a.nextCell, name⟩,
        (a.extend id name ty).update id fun s => { s with paramCount := s.paramCount + 1 }) := by
  unfold newParameter
  cases h : a.hasVariable id name with
  | true => rw [newVariable_of_hasVariable h]; rfl
  | false => rw [newVariable_of_not_hasVariable h]; rfl

/-- a parameter of a scope that is not among the first ones -/
theorem moves_newParameter (ha : a.WellFormed) {id : ScopeId} (hroot : a.root id = module) (hid : base ≤ id)
    (name : String) (ty : Ty) (position : Position) :
    Moves inner module base a (a.newParameter id name ty position).2 := by
  rw [newParameter_eq]
  split
  · exact moves_report ha hroot _ _
  · have hextend : Moves inner module base a (a.extend id name ty) := moves_extend ha (Or.inr (Or.inr hid)) name ty
    refine hextend.trans (moves_update hextend.wellFormed (fun s hs => ⟨⟨.refl _, List.prefix_refl _⟩, rfl, ?_⟩)
      (Or.inl hid) (Or.inr (Or.inr hid)))
    intro exports found hkind
    exact hextend.wellFormed.exported id s exports found hs hkind

/-! ### Scopes and exports -/

theorem moves_newLocal (ha : a.WellFormed) {parent : ScopeId} (hparent : parent < a.scopes.size)
    (hbase : base ≤ a.scopes.size) (signature : Signature) :
    Moves inner module base a (a.newLocal parent signature).2 := by
  refine ⟨ha.add (Or.inr ⟨parent, signature, rfl, hparent⟩), later_add _ _, fun x hx _ _ => ?_, fun x hx => ?_⟩
  · unfold newLocal
    rw [get?_add, if_neg (Nat.ne_of_lt (Nat.lt_of_lt_of_le hx hbase))]
  · unfold paramCount newLocal
    rw [get?_add, if_neg (Nat.ne_of_lt (Nat.lt_of_lt_of_le hx hbase))]

theorem exports_eq {exports : List (String × Ty)} {found : List Diagnostic} (hs : a.get? x = some s)
    (hk : s.kind = .global exports found) : a.exports x = exports := by
  obtain ⟨kind, declared, count⟩ := s
  subst hk
  unfold Arena.exports
  rw [hs]

/-- an export of a variable that the scope has, with its type -/
theorem moves_addExport (ha : a.WellFormed) {id : ScopeId} (hroot : a.root id = module)
    (hid : id = inner ∨ id = module ∨ base ≤ id) {name : String} {ty : Ty}
    (hv : ∀ s, a.get? id = some s → ∃ v, s.find? name = some v ∧ v.ty = ty) (position : Position) :
    Moves inner module base a (a.addExport id name ty position).2 := by
  unfold addExport
  split
  · exact moves_report ha hroot _ _
  split
  · exact moves_report ha hroot _ _
  refine moves_update ha (fun s hs => ⟨?_, ?_, ?_⟩) (Or.inr fun s => ?_) hid
  · obtain ⟨kind, declared, count⟩ := s
    cases kind with
    | global exports found => exact ⟨.global (List.prefix_append _ _) (List.prefix_refl _), List.prefix_refl _⟩
    | «local» parent signature => exact .refl _
  · split <;> rfl
  · intro exports found hkind e he
    split at hkind
    · next exports' found' hs' =>
      cases hkind
      rcases List.mem_append.1 he with he | he
      · exact ha.exported id s exports' found hs hs' e he
      · rw [List.mem_singleton.1 he]; exact hv s hs
    · next parent signature hs' => rw [hs'] at hkind; cases hkind
  · split <;> rfl

/-! ### What is exported -/

theorem mem_of_export? {name : String} {ty : Ty} (h : a.export? x name = some ty) : (name, ty) ∈ a.exports x := by
  obtain ⟨before, after, hall, _⟩ := List.lookup_eq_some_iff.1 h
  rw [hall]
  exact List.mem_append_right _ List.mem_cons_self

/-- an export is a variable of its scope -/
theorem WellFormed.exported_find? (h : a.WellFormed) {e : String × Ty} (he : e ∈ a.exports x) :
    ∃ s v, a.get? x = some s ∧ s.find? e.1 = some v ∧ v.ty = e.2 := by
  unfold Arena.exports at he
  cases hx : a.get? x with
  | none => rw [hx] at he; cases he
  | some s =>
    obtain ⟨kind, declared, count⟩ := s
    cases kind with
    | «local» parent signature => rw [hx] at he; cases he
    | global exports found =>
      rw [hx] at he
      obtain ⟨v, hv, hty⟩ := h.exported x _ exports found hx rfl e he
      exact ⟨_, v, rfl, hv, hty⟩

/-- all exports of a name have the same type -/
theorem WellFormed.export? (h : a.WellFormed) {e : String × Ty} (he : e ∈ a.exports x) :
    a.export? x e.1 = some e.2 := by
  obtain ⟨name, ty⟩ := e
  cases hexport : a.export? x name with
  | none =>
    have hnone := List.lookup_eq_none_iff.1 hexport (name, ty) he
    simp at hnone
  | some other =>
    obtain ⟨s, v, hs, hv, hty⟩ := h.exported_find? he
    obtain ⟨t, w, ht, hw, hother⟩ := h.exported_find? (mem_of_export? hexport)
    obtain rfl : s = t := Option.some.inj (hs.symm.trans ht)
    obtain rfl : v = w := Option.some.inj (hv.symm.trans hw)
    exact congrArg some (hother.symm.trans hty)

/-- exports stay what they are where a scope keeps its kind -/
theorem exports_congr (h : (b.get? x).map Scope.kind = (a.get? x).map Scope.kind) : b.exports x = a.exports x := by
  unfold exports
  cases hb : b.get? x with
  | none =>
    cases ha : a.get? x with
    | none => rfl
    | some s => rw [ha, hb] at h; cases h
  | some t =>
    cases ha : a.get? x with
    | none => rw [ha, hb] at h; cases h
    | some s =>
      obtain ⟨kind, _, _⟩ := s
      obtain ⟨kind', _, _⟩ := t
      rw [ha, hb] at h
      obtain rfl : kind' = kind := Option.some.inj h
      cases kind' <;> rfl

theorem exports_update {id : ScopeId} {f : Scope → Scope} (hf : ∀ s, (f s).kind = s.kind) (x : ScopeId) :
    (a.update id f).exports x = a.exports x := by
  refine exports_congr ?_
  rw [get?_update]
  split
  · rw [Option.map_map]
    congr 1
    exact funext hf
  · rfl

theorem exports_extend (a : Arena) (id : ScopeId) (name : String) (ty : Ty) (x : ScopeId) :
    (a.extend id name ty).exports x = a.exports x := by
  refine exports_congr ?_
  rw [get?_extend]
  split
  · rw [Option.map_map]
    rfl
  · rfl

theorem exports_newLocal (a : Arena) (parent : ScopeId) (signature : Signature) (x : ScopeId) :
    (a.newLocal parent signature).2.exports x = a.exports x := by
  unfold newLocal exports
  rw [get?_add]
  by_cases hx : x = a.scopes.size
  · have hnone : a.get? x = none := by
      unfold get?
      rw [hx]
      exact Array.getElem?_size
    rw [if_pos hx, hnone]
    rfl
  · rw [if_neg hx]

end Arena

end TypedScript
