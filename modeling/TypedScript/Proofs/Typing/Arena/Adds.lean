/-
What an operation of an arena adds to a scope: the names that it declares there, and what it exports from there. Names
and exports that were there stay, and no other scope gets exports (`Arena.Adds`). Nothing is asked of the arena.

- `Arena.Adds.trans`: what comes later is added to what came before.
- `Arena.adds_newVariable`, `Arena.adds_addExport`: what is declared and exported.
- `Arena.adds_report`, `Arena.adds_newLocal`, ...: whatever is done elsewhere adds nothing.
-/
import TypedScript.Proofs.Typing.Arena.Append
import TypedScript.Proofs.Typing.Module

namespace TypedScript

namespace Arena

variable {a b c : Arena} {x g id : ScopeId} {names names' : List String} {added added' : List (String × Ty)}

/-! ## Recorded types -/

/-- a scope has a variable with the name and the type of an export -/
def Records (a : Arena) (x : ScopeId) (e : String × Ty) : Prop :=
  ∃ s v, a.get? x = some s ∧ s.find? e.1 = some v ∧ v.ty = e.2

theorem Records.later {e : String × Ty} (h : a.Records x e) (hlater : a.Later b) : b.Records x e := by
  obtain ⟨s, v, hs, hv, hty⟩ := h
  obtain ⟨t, ht, hst⟩ := hlater.scope x s hs
  exact ⟨t, v, ht, hst.find? hv, hty⟩

theorem Records.hasVariable {e : String × Ty} (h : a.Records x e) : a.hasVariable x e.1 = true := by
  obtain ⟨s, v, hs, hv, _⟩ := h
  exact hasVariable_iff.2 ⟨s, v, hs, hv⟩

theorem Later.hasVariable {name : String} (h : a.Later b) (hname : a.hasVariable x name = true) :
    b.hasVariable x name = true := by
  obtain ⟨s, v, hs, hv⟩ := hasVariable_iff.1 hname
  exact (Records.later (e := (name, v.ty)) ⟨s, v, hs, hv, rfl⟩ h).hasVariable

/-! ## What is added -/

/-- an arena and a later one, in which a scope has variables of some more names and some more exports -/
structure Adds (g : ScopeId) (names : List String) (added : List (String × Ty)) (a b : Arena) : Prop where
  later : a.Later b
  others : ∀ x, x ≠ g → b.exports x = a.exports x
  exports : b.exports g = a.exports g ++ added
  names : ∀ name, b.hasVariable g name = true ↔ a.hasVariable g name = true ∨ name ∈ names
  recorded : ∀ e ∈ added, b.Records g e

namespace Adds

theorem refl (g : ScopeId) (a : Arena) : Adds g [] [] a a :=
  ⟨.refl a, fun _ _ => rfl, (List.append_nil _).symm, fun _ => by simp, fun _ h => nomatch h⟩

theorem trans (h : Adds g names added a b) (h' : Adds g names' added' b c) :
    Adds g (names ++ names') (added ++ added') a c := by
  refine ⟨h.later.trans h'.later, fun x hx => (h'.others x hx).trans (h.others x hx), ?_,
    fun name => ?_, fun e he => ?_⟩
  · rw [h'.exports, h.exports, List.append_assoc]
  · rw [h'.names, h.names, List.mem_append, or_assoc]
  · rcases List.mem_append.1 he with he | he
    · exact (h.recorded e he).later h'.later
    · exact h'.recorded e he

/-- names that are declared already are no more names -/
theorem known (h : Adds g names added a b) (hnames : ∀ name ∈ names, a.hasVariable g name = true) :
    Adds g [] added a b := by
  refine ⟨h.later, h.others, h.exports, fun name => ?_, h.recorded⟩
  rw [h.names]
  exact ⟨fun hname => Or.inl (hname.elim (fun h => h) (hnames name)),
    fun hname => Or.inl (hname.resolve_right (by simp))⟩

/-- where nothing is added, the exports of all scopes stay what they are -/
theorem same (h : Adds g names [] a b) (x : ScopeId) : b.exports x = a.exports x := by
  by_cases hx : x = g
  · rw [hx, h.exports, List.append_nil]
  · exact h.others x hx

theorem lt (h : Adds g names added a b) (hg : g < a.scopes.size) : g < b.scopes.size :=
  Nat.lt_of_lt_of_le hg h.later.size

/-- nothing is added where exports and names stay what they are -/
theorem of_same (hlater : a.Later b) (hexports : ∀ x, b.exports x = a.exports x)
    (hnames : ∀ name, b.hasVariable g name = a.hasVariable g name) : Adds g [] [] a b :=
  ⟨hlater, fun x _ => hexports x, (hexports g).trans (List.append_nil _).symm, fun name => by rw [hnames]; simp,
    fun _ h => nomatch h⟩

end Adds

/-! ## Operations elsewhere -/

theorem exports_report (a : Arena) (id : ScopeId) (position : Position) (text : String) (x : ScopeId) :
    (a.report id position text).exports x = a.exports x := by
  unfold report exports
  rw [get?_update]
  by_cases hx : a.root id = x
  · rw [if_pos hx]
    cases a.get? x with
    | none => rfl
    | some s =>
      obtain ⟨kind, declared, count⟩ := s
      cases kind <;> rfl
  · rw [if_neg hx]

theorem adds_report (g : ScopeId) (a : Arena) (id : ScopeId) (position : Position) (text : String) :
    Adds g [] [] a (a.report id position text) :=
  .of_same (fills_report a id position text).later (exports_report a id position text)
    (hasVariable_report id position text)

theorem adds_extend_other (hid : id ≠ g) (a : Arena) (name : String) (ty : Ty) :
    Adds g [] [] a (a.extend id name ty) := by
  refine .of_same (later_extend a id name ty) (exports_extend a id name ty) fun other => ?_
  unfold hasVariable
  rw [get?_extend, if_neg hid]

theorem adds_newVariable_other (hid : id ≠ g) (a : Arena) (name : String) (ty : Ty) (position : Position) :
    Adds g [] [] a (a.newVariable id name ty position).2 := by
  cases h : a.hasVariable id name with
  | true => rw [newVariable_of_hasVariable h]; exact adds_report g a id position _
  | false => rw [newVariable_of_not_hasVariable h]; exact adds_extend_other hid a name ty

theorem adds_newParameter_other (hid : id ≠ g) (a : Arena) (name : String) (ty : Ty) (position : Position) :
    Adds g [] [] a (a.newParameter id name ty position).2 := by
  rw [newParameter_eq]
  split
  · exact adds_report g a id position _
  · refine (adds_extend_other hid a name ty).trans
      (.of_same ?_ (exports_update fun _ => rfl) (hasVariable_update fun _ => rfl))
    exact later_update fun s _ => ⟨.refl s.kind, List.prefix_refl s.declared⟩

theorem adds_newLocal (hg : g < a.scopes.size) (parent : ScopeId) (signature : Signature) :
    Adds g [] [] a (a.newLocal parent signature).2 := by
  refine .of_same (later_add _ _) (exports_newLocal a parent signature) fun name => ?_
  unfold hasVariable newLocal
  rw [get?_add, if_neg (Nat.ne_of_lt hg)]

/-! ## Operations on the scope -/

theorem adds_newVariable (hg : g < a.scopes.size) (name : String) (ty : Ty) (position : Position) :
    Adds g [name] [] a (a.newVariable g name ty position).2 := by
  cases h : a.hasVariable g name with
  | true =>
    rw [newVariable_of_hasVariable h]
    have hreport := adds_report g a g position ("'" ++ name ++ "' is already declared")
    refine ⟨hreport.later, hreport.others, hreport.exports, fun other => ?_, hreport.recorded⟩
    rw [hasVariable_report, List.mem_singleton]
    exact ⟨Or.inl, fun hother => hother.elim (fun h => h) (fun heq => heq ▸ h)⟩
  | false =>
    rw [newVariable_of_not_hasVariable h]
    have hlater := later_extend a g name ty
    refine ⟨hlater, fun x _ => exports_extend a g name ty x,
      (exports_extend a g name ty g).trans (List.append_nil _).symm,
      fun other => ⟨fun hother => ?_, ?_⟩, fun _ h => nomatch h⟩
    · exact (hasVariable_extend hother).symm.imp_right List.mem_singleton.2
    · rintro (hother | hother)
      · exact hlater.hasVariable hother
      · obtain rfl := List.mem_singleton.1 hother
        obtain ⟨s, hs⟩ := get?_of_lt hg
        obtain ⟨t, ht, hfind⟩ := find?_extend h hs ty
        exact hasVariable_iff.2 ⟨t, _, ht, hfind⟩

/-- a variable of a new name is there -/
theorem records_newVariable (hg : g < a.scopes.size) {name : String} (hname : a.hasVariable g name = false) (ty : Ty)
    (position : Position) : (a.newVariable g name ty position).2.Records g (name, ty) := by
  obtain ⟨s, hs⟩ := get?_of_lt hg
  obtain ⟨t, ht, hfind⟩ := find?_extend hname hs ty
  rw [newVariable_of_not_hasVariable hname]
  exact ⟨t, _, ht, hfind, rfl⟩

/-- an export of a variable whose name is not yet exported -/
theorem adds_addExport (hg : a.isGlobal g = true) {e : String × Ty} (hrecords : a.Records g e)
    (hnew : a.export? g e.1 = none) (position : Position) : Adds g [] [e] a (a.addExport g e.1 e.2 position).2 := by
  have hlater := (fills_addExport a g e.1 e.2 position).later
  refine ⟨hlater, fun x hx => ?_, exports_addExport hg hnew e.2 position, fun name => ?_, fun e' he => ?_⟩
  · unfold addExport
    rw [if_neg (by simp [hnew]), if_neg (by simp [hg])]
    unfold exports
    rw [get?_update, if_neg (Ne.symm hx)]
  · rw [hasVariable_addExport]
    simp
  · rw [List.mem_singleton.1 he]
    exact hrecords.later hlater

end Arena

end TypedScript
