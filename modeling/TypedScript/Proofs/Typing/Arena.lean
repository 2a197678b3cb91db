/-
How an arena changes while modules are checked. Scopes are only ever added, and a scope only ever gains: variables come
behind the variables declared before, exports and diagnostics behind the others, and the scope around a scope stays what
it is. `Arena.Later a b` says that `b` is what `a` may have become.

- `Arena.Later.chain`: a scope keeps its chain.
- `Arena.Later.clean`: a module that is clean later on was clean before.
- `Arena.WellFormed`: every scope was opened after the one around it, no two variables of an arena share a cell, and
  what is exported is a variable of the scope, of the type noted for the export. All that the check does to an arena
  leaves it well formed.
-/
import TypedScript.Typing.Scope

namespace TypedScript

/-! ## Scopes later on -/

/-- a kind, and what it may be later on -/
inductive ScopeKind.Later : ScopeKind → ScopeKind → Prop
  | global {exports exports' : List (String × Ty)} {found found' : List Diagnostic} (he : exports <+: exports')
      (hf : found <+: found') : Later (.global exports found) (.global exports' found')
  | local (parent : ScopeId) (signature : Signature) : Later (.local parent signature) (.local parent signature)

theorem ScopeKind.Later.refl (k : ScopeKind) : k.Later k := by
  cases k with
  | global exports found => exact .global (List.prefix_refl exports) (List.prefix_refl found)
  | «local» parent signature => exact .local parent signature

theorem ScopeKind.Later.trans {k l m : ScopeKind} (h : k.Later l) (h' : l.Later m) : k.Later m := by
  cases h with
  | global he hf =>
    cases h' with
    | global he' hf' => exact .global (he.trans he') (hf.trans hf')
  | «local» parent signature => exact h'

/-- a scope, and what it may be later on -/
structure Scope.Later (s t : Scope) : Prop where
  kind : s.kind.Later t.kind
  declared : s.declared <+: t.declared

theorem Scope.Later.refl (s : Scope) : s.Later s := ⟨.refl s.kind, List.prefix_refl s.declared⟩

theorem Scope.Later.trans {s t u : Scope} (h : s.Later t) (h' : t.Later u) : s.Later u :=
  ⟨h.kind.trans h'.kind, h.declared.trans h'.declared⟩

theorem Scope.Later.isGlobal {s t : Scope} (h : s.Later t) : t.isGlobal = s.isGlobal := by
  unfold Scope.isGlobal
  cases hs : s.kind with
  | global exports found =>
    have hk := h.kind
    rw [hs] at hk
    cases ht : t.kind with
    | global exports' found' => rfl
    | «local» parent signature => rw [ht] at hk; cases hk
  | «local» parent signature =>
    have hk := h.kind
    rw [hs] at hk
    cases ht : t.kind with
    | global exports' found' => rw [ht] at hk; cases hk
    | «local» parent' signature' => rfl

/-- a name that a scope has a variable for means that variable later on -/
theorem Scope.Later.find? {s t : Scope} (h : s.Later t) {name : String} {v : Variable} (hv : s.find? name = some v) :
    t.find? name = some v := by
  obtain ⟨more, hmore⟩ := h.declared
  unfold Scope.find? at hv ⊢
  rw [← hmore, List.find?_append, hv]
  rfl

namespace Arena

variable {a b c : Arena} {x y : ScopeId} {s : Scope}

/-! ## What the operations do to each scope -/

theorem lt_of_get? (h : a.get? x = some s) : x < a.scopes.size := by
  obtain ⟨hx, _⟩ := Array.getElem?_eq_some_iff.1 h
  exact hx

theorem get?_of_lt (h : x < a.scopes.size) : ∃ s, a.get? x = some s :=
  ⟨a.scopes[x], Array.getElem?_eq_getElem h⟩

theorem get?_update (a : Arena) (id : ScopeId) (f : Scope → Scope) (x : ScopeId) :
    (a.update id f).get? x = if id = x then (a.get? x).map f else a.get? x := by
  simp only [get?, update, Array.getElem?_modify]

@[simp] theorem size_update (a : Arena) (id : ScopeId) (f : Scope → Scope) :
    (a.update id f).scopes.size = a.scopes.size := by
  simp only [update, Array.size_modify]

@[simp] theorem nextCell_update (a : Arena) (id : ScopeId) (f : Scope → Scope) :
    (a.update id f).nextCell = a.nextCell := rfl

theorem get?_add (a : Arena) (s : Scope) (x : ScopeId) :
    (a.add s).2.get? x = if x = a.scopes.size then some s else a.get? x := by
  simp only [get?, add, Array.getElem?_push]

@[simp] theorem size_add (a : Arena) (s : Scope) : (a.add s).2.scopes.size = a.scopes.size + 1 := by
  simp only [add, Array.size_push]

@[simp] theorem nextCell_add (a : Arena) (s : Scope) : (a.add s).2.nextCell = a.nextCell := rfl

@[simp] theorem fst_add (a : Arena) (s : Scope) : (a.add s).1 = a.scopes.size := rfl

theorem parent?_eq_some_iff {parent : ScopeId} :
    a.parent? x = some parent ↔ ∃ s signature, a.get? x = some s ∧ s.kind = .local parent signature := by
  unfold parent?
  constructor
  · intro h
    split at h
    · next parent' signature declared count heq =>
      cases h
      exact ⟨_, signature, heq, rfl⟩
    · cases h
  · rintro ⟨⟨kind, declared, count⟩, signature, hs, hk⟩
    subst hk
    rw [hs]

theorem isGlobal_iff : a.isGlobal x = true ↔ ∃ s, a.get? x = some s ∧ s.isGlobal = true := by
  unfold isGlobal
  cases a.get? x with
  | none => simp
  | some s => simp

theorem lt_of_isGlobal (h : a.isGlobal x = true) : x < a.scopes.size := by
  obtain ⟨s, hs, _⟩ := isGlobal_iff.1 h
  exact lt_of_get? hs

theorem parent?_of_isGlobal (h : a.isGlobal x = true) : a.parent? x = none := by
  obtain ⟨s, hs, hg⟩ := isGlobal_iff.1 h
  cases hp : a.parent? x with
  | none => rfl
  | some parent =>
    obtain ⟨t, signature, ht, hk⟩ := parent?_eq_some_iff.1 hp
    rw [hs] at ht
    cases ht
    simp [Scope.isGlobal, hk] at hg

/-! ## Arenas later on -/

/-- an arena, and what it may be later on -/
structure Later (a b : Arena) : Prop where
  size : a.scopes.size ≤ b.scopes.size
  nextCell : a.nextCell ≤ b.nextCell
  scope : ∀ x s, a.get? x = some s → ∃ t, b.get? x = some t ∧ s.Later t

theorem Later.refl (a : Arena) : a.Later a :=
  ⟨Nat.le_refl _, Nat.le_refl _, fun _ s hs => ⟨s, hs, .refl s⟩⟩

theorem Later.trans (h : a.Later b) (h' : b.Later c) : a.Later c := by
  refine ⟨Nat.le_trans h.size h'.size, Nat.le_trans h.nextCell h'.nextCell, fun x s hs => ?_⟩
  obtain ⟨t, ht, hst⟩ := h.scope x s hs
  obtain ⟨u, hu, htu⟩ := h'.scope x t ht
  exact ⟨u, hu, hst.trans htu⟩

theorem later_update {id : ScopeId} {f : Scope → Scope} (h : ∀ s, a.get? id = some s → s.Later (f s)) :
    a.Later (a.update id f) := by
  refine ⟨by simp, by simp, fun x s hs => ?_⟩
  rw [get?_update]
  split
  · next hid => subst hid; exact ⟨f s, by rw [hs]; rfl, h s hs⟩
  · exact ⟨s, hs, .refl s⟩

theorem later_add (a : Arena) (s : Scope) : a.Later (a.add s).2 := by
  refine ⟨by simp, by simp, fun x t ht => ⟨t, ?_, .refl t⟩⟩
  rw [get?_add, if_neg (Nat.ne_of_lt (lt_of_get? ht)), ht]

theorem Later.parent? (h : a.Later b) (hx : x < a.scopes.size) : b.parent? x = a.parent? x := by
  obtain ⟨s, hs⟩ := get?_of_lt hx
  obtain ⟨t, ht, hst⟩ := h.scope x s hs
  obtain ⟨kind, declared, count⟩ := s
  obtain ⟨kind', declared', count'⟩ := t
  have hk : kind.Later kind' := hst.kind
  unfold Arena.parent?
  rw [hs, ht]
  cases hk <;> rfl

theorem Later.signature? (h : a.Later b) (hx : x < a.scopes.size) : b.signature? x = a.signature? x := by
  obtain ⟨s, hs⟩ := get?_of_lt hx
  obtain ⟨t, ht, hst⟩ := h.scope x s hs
  obtain ⟨kind, declared, count⟩ := s
  obtain ⟨kind', declared', count'⟩ := t
  have hk : kind.Later kind' := hst.kind
  unfold Arena.signature?
  rw [hs, ht]
  cases hk <;> rfl

theorem Later.isGlobal (h : a.Later b) (hx : x < a.scopes.size) : b.isGlobal x = a.isGlobal x := by
  obtain ⟨s, hs⟩ := get?_of_lt hx
  obtain ⟨t, ht, hst⟩ := h.scope x s hs
  unfold Arena.isGlobal
  rw [hs, ht]
  exact hst.isGlobal

theorem Later.isGlobal_of (h : a.Later b) (hx : a.isGlobal x = true) : b.isGlobal x = true := by
  obtain ⟨s, hs, _⟩ := isGlobal_iff.1 hx
  rw [h.isGlobal (lt_of_get? hs), hx]

theorem Later.ordered (h : a.Later b) (hb : b.Ordered) : a.Ordered := by
  intro x parent hp
  obtain ⟨s, signature, hs, hk⟩ := parent?_eq_some_iff.1 hp
  have hx := lt_of_get? hs
  exact hb x parent ((h.parent? hx).trans hp)

theorem Later.outward (h : a.Later b) (ha : a.Ordered) (count : Nat) (hx : x < a.scopes.size) :
    b.outward count x = a.outward count x := by
  induction count generalizing x with
  | zero => rfl
  | succ count ih =>
    simp only [Arena.outward, h.parent? hx]
    cases hp : a.parent? x with
    | none => rfl
    | some parent =>
      have hlt := ha x parent hp
      simp only [ih (Nat.lt_trans hlt hx)]

/-- a scope keeps its chain -/
theorem Later.chain (h : a.Later b) (hb : b.Ordered) (hx : x < a.scopes.size) : b.chain x = a.chain x := by
  have ha := h.ordered hb
  rw [Arena.chain, outward_eq hb (Nat.lt_of_lt_of_le hx h.size) hx, h.outward ha _ hx]
  rfl

theorem Later.root (h : a.Later b) (hb : b.Ordered) (hx : x < a.scopes.size) : b.root x = a.root x := by
  rw [Arena.root, Arena.root, h.chain hb hx]

theorem chain_of_parent? (ha : a.Ordered) (hp : a.parent? x = some y) : a.chain x = x :: a.chain y := by
  obtain ⟨s, signature, hs, hk⟩ := parent?_eq_some_iff.1 hp
  rw [chain_eq ha (lt_of_get? hs), hp]

theorem chain_of_isGlobal (ha : a.Ordered) (hx : a.isGlobal x = true) : a.chain x = [x] := by
  obtain ⟨s, hs, _⟩ := isGlobal_iff.1 hx
  rw [chain_eq ha (lt_of_get? hs), parent?_of_isGlobal hx]

theorem root_of_isGlobal (ha : a.Ordered) (hx : a.isGlobal x = true) : a.root x = x := by
  rw [root, chain_of_isGlobal ha hx]
  rfl

theorem mem_chain_self (ha : a.Ordered) (hx : x < a.scopes.size) : x ∈ a.chain x := by
  rw [chain_eq ha hx]
  exact List.mem_cons_self

theorem root_of_parent? (ha : a.Ordered) (hp : a.parent? x = some y) : a.root x = a.root y := by
  obtain ⟨s, signature, hs, hk⟩ := parent?_eq_some_iff.1 hp
  have hy : y < a.scopes.size := Nat.lt_trans (ha x y hp) (lt_of_get? hs)
  have hy' := mem_chain_self ha hy
  rw [root, root, chain_of_parent? ha hp, List.getLast?_cons]
  cases hl : (a.chain y).getLast? with
  | none => rw [List.getLast?_eq_none_iff.1 hl] at hy'; cases hy'
  | some last => rfl

theorem le_of_mem_chain (ha : a.Ordered) (hx : x < a.scopes.size) (hy : y ∈ a.chain x) : y ≤ x := by
  induction x using Nat.strongRecOn with
  | ind x ih =>
    rw [chain_eq ha hx] at hy
    rcases List.mem_cons.1 hy with rfl | hy
    · exact Nat.le_refl _
    · cases hp : a.parent? x with
      | none => rw [hp] at hy; cases hy
      | some parent =>
        rw [hp] at hy
        have hlt := ha x parent hp
        exact Nat.le_trans (ih parent hlt (Nat.lt_trans hlt hx) hy) (Nat.le_of_lt hlt)

/-! ## Modules without diagnostics -/

/-- what was found wrong with a module, read off its global scope -/
theorem diagnostics_of_isGlobal (ha : a.Ordered) (hx : a.isGlobal x = true) :
    ∃ s exports, a.get? x = some s ∧ s.kind = .global exports (a.diagnostics x) := by
  obtain ⟨⟨kind, declared, count⟩, hs, hg⟩ := isGlobal_iff.1 hx
  cases kind with
  | global exports found =>
    refine ⟨_, exports, hs, ?_⟩
    unfold diagnostics
    rw [root_of_isGlobal ha hx, hs]
  | «local» parent signature => cases hg

/-- a module that is clean later on was clean before -/
theorem Later.clean (h : a.Later b) (hb : b.Ordered) (hx : a.isGlobal x = true) (hc : b.diagnostics x = []) :
    a.diagnostics x = [] := by
  obtain ⟨s, exports, hs, hk⟩ := diagnostics_of_isGlobal (h.ordered hb) hx
  obtain ⟨t, ht, hst⟩ := h.scope x s hs
  obtain ⟨t', exports', ht', hk'⟩ := diagnostics_of_isGlobal hb (h.isGlobal_of hx)
  rw [ht] at ht'
  cases ht'
  have hlater := hst.kind
  rw [hk, hk', hc] at hlater
  cases hlater with
  | global he hf => exact List.prefix_nil.1 hf

/-! ## Well-formed arenas -/

structure WellFormed (a : Arena) : Prop where
  ordered : a.Ordered
  fresh : ∀ x s, a.get? x = some s → ∀ v ∈ s.declared, v.cell.id < a.nextCell
  /-- no two variables share a cell -/
  distinct : ∀ x y s t, a.get? x = some s → a.get? y = some t → ∀ v ∈ s.declared, ∀ w ∈ t.declared,
    v.cell.id = w.cell.id → x = y ∧ v = w
  /-- what is exported is a variable of the scope -/
  exported : ∀ x s exports found, a.get? x = some s → s.kind = .global exports found →
    ∀ e ∈ exports, ∃ v, s.find? e.1 = some v ∧ v.ty = e.2

theorem wellFormed_empty : empty.WellFormed := by
  have hnone : ∀ x, empty.get? x = none := fun x => rfl
  refine ⟨ordered_empty, ?_, ?_, ?_⟩
  · intro x s hs; rw [hnone] at hs; cases hs
  · intro x y s t hs; rw [hnone] at hs; cases hs
  · intro x s exports found hs; rw [hnone] at hs; cases hs

/-- a scope in which nothing is declared or exported can be added inside a scope that is there -/
theorem WellFormed.add (h : a.WellFormed) {kind : ScopeKind}
    (hk : (∃ found, kind = .global [] found) ∨ ∃ parent signature, kind = .local parent signature ∧
      parent < a.scopes.size) :
    (a.add (.ofKind kind)).2.WellFormed := by
  have old {x : ScopeId} {s : Scope} (hs : (a.add (.ofKind kind)).2.get? x = some s) :
      (x = a.scopes.size ∧ s = .ofKind kind) ∨ a.get? x = some s := by
    rw [get?_add] at hs
    split at hs
    · next hx => cases hs; exact Or.inl ⟨hx, rfl⟩
    · exact Or.inr hs
  refine ⟨?_, ?_, ?_, ?_⟩
  · intro x parent hp
    obtain ⟨s, signature, hs, hkind⟩ := parent?_eq_some_iff.1 hp
    rcases old hs with ⟨rfl, rfl⟩ | hs
    · rcases hk with ⟨found, rfl⟩ | ⟨parent', signature', rfl, hlt⟩
      · cases hkind
      · cases hkind; exact hlt
    · exact h.ordered x parent (parent?_eq_some_iff.2 ⟨s, signature, hs, hkind⟩)
  · intro x s hs v hv
    rcases old hs with ⟨rfl, rfl⟩ | hs
    · cases hv
    · exact h.fresh x s hs v hv
  · intro x y s t hs ht v hv w hw
    rcases old hs with ⟨rfl, rfl⟩ | hs
    · cases hv
    · rcases old ht with ⟨rfl, rfl⟩ | ht
      · cases hw
      · exact h.distinct x y s t hs ht v hv w hw
  · intro x s exports found hs hkind e he
    rcases old hs with ⟨rfl, rfl⟩ | hs
    · rcases hk with ⟨found', rfl⟩ | ⟨parent', signature', rfl, hlt⟩
      · cases hkind; cases he
      · cases hkind
    · exact h.exported x s exports found hs hkind e he

/-- a scope changes without a change of its variables, and what it exports is among them -/
theorem WellFormed.update (h : a.WellFormed) {id : ScopeId} {f : Scope → Scope}
    (hf : ∀ s, a.get? id = some s → s.Later (f s) ∧ (f s).declared = s.declared ∧
      ∀ exports found, (f s).kind = .global exports found → ∀ e ∈ exports, ∃ v, s.find? e.1 = some v ∧ v.ty = e.2) :
    (a.update id f).WellFormed := by
  have old {x : ScopeId} {t : Scope} (ht : (a.update id f).get? x = some t) :
      ∃ s, a.get? x = some s ∧ t.declared = s.declared ∧ s.Later t := by
    rw [get?_update] at ht
    split at ht
    · next hx =>
      subst hx
      obtain ⟨s, hs, rfl⟩ := Option.map_eq_some_iff.1 ht
      obtain ⟨hl, hd, _⟩ := hf s hs
      exact ⟨s, hs, hd, hl⟩
    · exact ⟨t, ht, rfl, .refl t⟩
  refine ⟨?_, ?_, ?_, ?_⟩
  · intro x parent hp
    obtain ⟨t, signature, ht, hkind⟩ := parent?_eq_some_iff.1 hp
    obtain ⟨s, hs, _, hl⟩ := old ht
    have hlater := later_update fun s hs => (hf s hs).1
    exact h.ordered x parent ((hlater.parent? (lt_of_get? hs)).symm.trans hp)
  · intro x t ht v hv
    obtain ⟨s, hs, hd, _⟩ := old ht
    rw [hd] at hv
    exact h.fresh x s hs v hv
  · intro x y t u ht hu v hv w hw
    obtain ⟨s, hs, hd, _⟩ := old ht
    obtain ⟨s', hs', hd', _⟩ := old hu
    rw [hd] at hv
    rw [hd'] at hw
    exact h.distinct x y s s' hs hs' v hv w hw
  · intro x t exports found ht hkind e he
    rw [get?_update] at ht
    split at ht
    · next hx =>
      subst hx
      obtain ⟨s, hs, rfl⟩ := Option.map_eq_some_iff.1 ht
      obtain ⟨hl, hd, hexp⟩ := hf s hs
      obtain ⟨v, hv, hty⟩ := hexp exports found hkind e he
      exact ⟨v, hl.find? hv, hty⟩
    · exact h.exported x t exports found ht hkind e he

end Arena

end TypedScript
