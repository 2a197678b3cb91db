/-
Types without the error type in them. Where something is reported a type may also be the error type itself, but the
error type never stands within another one: such a type is excused. The operations of an arena keep its types excused.

- `Ty.Excused`, `Scope.Excused`, `Arena.Excused`: types, scopes and arenas of that kind.
- `Arena.Excused.newVariable`, `Arena.Excused.addExport` and so on: one lemma for each operation.
- `Arena.Own`: the scopes of one module, kept by each operation; a report is one more diagnostic of the module.
-/
import TypedScript.Proofs.Typing.Arena.Append
import TypedScript.Proofs.Typing.Module

namespace TypedScript

namespace Ty

mutual

/-- the error type stands somewhere in a type -/
def hasError : Ty → Bool
  | error => true
  | any => false
  | void => false
  | ident _ => false
  | list element => hasError element
  | optional child => hasError child
  | tuple items => anyHasError items
  | function params result => anyHasError params || hasError result

/-- the error type stands somewhere in one of some types -/
def anyHasError : List Ty → Bool
  | [] => false
  | ty :: tys => hasError ty || anyHasError tys

end

theorem anyHasError_eq_false {tys : List Ty} : anyHasError tys = false ↔ ∀ ty ∈ tys, ty.hasError = false := by
  induction tys with
  | nil => simp [anyHasError]
  | cons ty tys ih => simp [anyHasError, ih]

mutual

theorem hasError_ofNote (note : Note) : (ofNote note).hasError = false := by
  cases note <;> simp [ofNote, hasError, hasError_ofNote, anyHasError_ofNotes]
termination_by structural note

theorem anyHasError_ofNotes (notes : List Note) : anyHasError (ofNotes notes) = false := by
  cases notes <;> simp [ofNotes, anyHasError, hasError_ofNote, anyHasError_ofNotes]
termination_by structural notes

end

/-- without the error type, or the error type where something is reported -/
def Excused (R : Prop) (ty : Ty) : Prop := ty.hasError = false ∨ ty = .error ∧ R

variable {R : Prop} {ty : Ty}

theorem Excused.of_clean (h : ty.hasError = false) : ty.Excused R := Or.inl h

theorem Excused.of_reported (h : R) : Ty.error.Excused R := Or.inr ⟨rfl, h⟩

theorem Excused.clean (h : ty.Excused R) (hty : ty.isError = false) : ty.hasError = false := by
  rcases h with h | ⟨rfl, _⟩
  · exact h
  · cases hty

theorem Excused.reported (h : ty.Excused R) (hty : ty.isError = true) : R := by
  rcases h with h | ⟨_, hR⟩
  · cases ty <;> cases hty
    cases h
  · exact hR

theorem excused_false_iff : ty.Excused False ↔ ty.hasError = false := by simp [Excused]

end Ty

theorem Signature.hasError_ofNotes (params : List Parameter) (result : Note) :
    (Signature.ty ⟨params.map fun param => .ofNote param.note, .ofNote result⟩).hasError = false := by
  have hparams : Ty.anyHasError (params.map fun param => .ofNote param.note) = false := by
    refine Ty.anyHasError_eq_false.2 fun ty hty => ?_
    obtain ⟨param, _, rfl⟩ := List.mem_map.1 hty
    exact Ty.hasError_ofNote param.note
  simp [Signature.ty, Ty.hasError, hparams, Ty.hasError_ofNote]

/-- the types of a scope are excused, and its function's signature has no error type -/
structure Scope.Excused (R : Prop) (s : Scope) : Prop where
  declared : ∀ v ∈ s.declared, v.ty.Excused R
  exports : ∀ exports found, s.kind = .global exports found → ∀ e ∈ exports, e.2.Excused R
  signature : ∀ parent signature, s.kind = .local parent signature → signature.ty.hasError = false

theorem Scope.Excused.mono {R R' : Prop} {s : Scope} (h : s.Excused R) (hR : R → R') : s.Excused R' := by
  have hty {ty : Ty} (hty : ty.Excused R) : ty.Excused R' := hty.imp_right fun ⟨heq, h⟩ => ⟨heq, hR h⟩
  exact ⟨fun v hv => hty (h.declared v hv), fun exports found hk e he => hty (h.exports exports found hk e he),
    h.signature⟩

theorem Scope.Excused.moved {R : Prop} {s : Scope} (h : s.Excused R) (scopes cells : Nat) :
    (s.moved scopes cells).Excused R := by
  obtain ⟨kind, declared, count⟩ := s
  refine ⟨fun v hv => ?_, fun exports found hk e he => ?_, fun parent signature hk => ?_⟩
  · obtain ⟨w, hw, rfl⟩ := List.mem_map.1 hv
    exact h.declared w hw
  · cases kind with
    | global exports' found' =>
      cases hk
      exact h.exports exports found rfl e he
    | «local» parent signature => cases hk
  · cases kind with
    | global exports found => cases hk
    | «local» parent' signature' =>
      cases hk
      exact h.signature parent' signature rfl

namespace Arena

/-- every scope is excused -/
def Excused (R : Prop) (a : Arena) : Prop := ∀ x s, a.get? x = some s → s.Excused R

variable {R : Prop} {a b m : Arena} {i x : Nat} {name : String} {ty : Ty} {position : Position}

/-! ## What is asked of the arena -/

theorem Excused.exports (h : a.Excused R) (x : ScopeId) : ∀ e ∈ a.exports x, e.2.Excused R := by
  intro e he
  unfold Arena.exports at he
  split at he
  · next exports found declared count hx => exact (h x _ hx).exports exports found rfl e he
  · cases he

theorem Excused.lookup? (h : a.Excused R) {v : Variable} (hv : a.lookup? x name = some v) : v.ty.Excused R := by
  obtain ⟨y, _, hy⟩ := List.exists_of_findSome?_eq_some hv
  obtain ⟨s, hs, hfind⟩ := Option.bind_eq_some_iff.1 hy
  exact (h y s hs).declared v (List.mem_of_find?_eq_some hfind)

theorem Excused.signature? (h : a.Excused R) {signature : Signature} (hx : a.signature? x = some signature) :
    signature.ty.hasError = false := by
  unfold Arena.signature? at hx
  split at hx
  · next parent _ declared count hs =>
    cases hx
    exact (h x _ hs).signature parent signature rfl
  · cases hx

/-! ## What is done to it -/

theorem excused_update {f : Scope → Scope} (h : a.Excused R)
    (hf : ∀ s, a.get? i = some s → s.Excused R → (f s).Excused R) : (a.update i f).Excused R := by
  intro x s hs
  rw [get?_update] at hs
  split at hs
  · next hx =>
    subst hx
    obtain ⟨t, ht, rfl⟩ := Option.map_eq_some_iff.1 hs
    exact hf t ht (h i t ht)
  · exact h x s hs

theorem Excused.report (h : a.Excused R) (id : ScopeId) (position : Position) (text : String) :
    (a.report id position text).Excused R := by
  refine excused_update h fun s _ hs => ?_
  obtain ⟨kind, declared, count⟩ := s
  cases kind with
  | «local» parent signature => exact hs
  | global exports found =>
    exact ⟨hs.declared, fun _ _ hk => by cases hk; exact hs.exports exports found rfl, fun _ _ hk => nomatch hk⟩

theorem Excused.extend (h : a.Excused R) (hty : ty.Excused R) (id : ScopeId) (name : String) :
    (a.extend id name ty).Excused R := by
  intro x s hs
  rw [get?_extend] at hs
  split at hs
  · obtain ⟨t, ht, rfl⟩ := Option.map_eq_some_iff.1 hs
    obtain ⟨hdeclared, hexports, hsignature⟩ := h x t ht
    refine ⟨fun v hv => ?_, hexports, hsignature⟩
    rcases List.mem_append.1 hv with hv | hv
    · exact hdeclared v hv
    · rw [List.mem_singleton.1 hv]
      exact hty
  · exact h x s hs

theorem Excused.newVariable (h : a.Excused R) (hty : ty.Excused R) (id : ScopeId)
    (name : String) (position : Position) : (a.newVariable id name ty position).2.Excused R := by
  cases hvar : a.hasVariable id name with
  | true => rw [newVariable_of_hasVariable hvar]; exact h.report id position _
  | false => rw [newVariable_of_not_hasVariable hvar]; exact h.extend hty id name

theorem Excused.newParameter (h : a.Excused R) (hty : ty.Excused R) (id : ScopeId) (name : String)
    (position : Position) : (a.newParameter id name ty position).2.Excused R := by
  rw [newParameter_eq]
  split
  · exact h.report id position _
  · exact excused_update (h.extend hty id name) fun s _ hs => ⟨hs.declared, hs.exports, hs.signature⟩

theorem Excused.addExport (h : a.Excused R) (hty : ty.Excused R) (id : ScopeId) (name : String) (position : Position) :
    (a.addExport id name ty position).2.Excused R := by
  unfold Arena.addExport
  split
  · exact h.report id position _
  split
  · exact h.report id position _
  · refine excused_update h fun s _ hs => ?_
    obtain ⟨kind, declared, count⟩ := s
    cases kind with
    | «local» parent signature => exact hs
    | global exports found =>
      refine ⟨hs.declared, fun _ _ hk e he => ?_, fun _ _ hk => nomatch hk⟩
      cases hk
      rcases List.mem_append.1 he with he | he
      · exact hs.exports exports found rfl e he
      · rw [List.mem_singleton.1 he]
        exact hty

theorem Excused.add (h : a.Excused R) {s : Scope} (hs : s.Excused R) : (a.add s).2.Excused R := by
  intro x t ht
  rw [get?_add] at ht
  split at ht
  · cases ht; exact hs
  · exact h x t ht

theorem Excused.newGlobal (h : a.Excused R) : a.newGlobal.2.Excused R := by
  refine h.add ⟨fun v hv => (nomatch hv), fun _ _ hk e he => ?_, fun _ _ hk => (nomatch hk)⟩
  cases hk
  cases he

theorem Excused.newLocal (h : a.Excused R) {signature : Signature} (hty : signature.ty.hasError = false)
    (parent : ScopeId) : (a.newLocal parent signature).2.Excused R :=
  h.add ⟨fun v hv => (nomatch hv), fun _ _ hk => (nomatch hk), fun _ _ hk => by cases hk; exact hty⟩

theorem Excused.newNative (h : a.Excused R) {exports : List (String × Ty)} (hexports : ∀ e ∈ exports, e.2.Excused R) :
    (a.newNative exports).2.Excused R := by
  have hall {b : Arena} (hb : b.Excused R) (id : ScopeId) (es : List (String × Ty)) (hes : ∀ e ∈ es, e.2.Excused R) :
      (es.foldl (fun a e => ((a.newVariable id e.1 e.2 .null).2.addExport id e.1 e.2 .null).2) b).Excused R := by
    induction es generalizing b with
    | nil => exact hb
    | cons e es ih =>
      obtain ⟨hfirst, hrest⟩ := List.forall_mem_cons.1 hes
      exact ih ((hb.newVariable hfirst id e.1 .null).addExport hfirst id e.1 .null) hrest
  exact hall h.newGlobal a.scopes.size exports hexports

/-! ## The scopes of one module -/

/-- the scopes of one module: its global scope is the first one, and around all others -/
structure Own (R : Prop) (m : Arena) : Prop where
  ordered : m.Ordered
  root : ∀ x < m.scopes.size, m.root x = 0
  global : m.isGlobal 0 = true
  excused : m.Excused R

theorem diagnostics_eq (ha : a.Ordered) {s : Scope} {exports : List (String × Ty)} {found : List Diagnostic}
    (hs : a.get? x = some s) (hk : s.kind = .global exports found) : a.diagnostics x = found := by
  have hx : a.isGlobal x = true := isGlobal_iff.2 ⟨s, hs, by simp [Scope.isGlobal, hk]⟩
  obtain ⟨kind, declared, count⟩ := s
  subst hk
  unfold diagnostics
  rw [root_of_isGlobal ha hx, hs]

theorem Own.fills (h : m.Own R) (hb : m.Fills b) (hexcused : b.Excused R) : b.Own R := by
  have hordered := h.ordered.fills hb
  refine ⟨hordered, fun x hx => ?_, hb.later.isGlobal_of h.global, hexcused⟩
  rw [hb.size] at hx
  rw [hb.later.root hordered hx, h.root x hx]

theorem Own.report (h : m.Own R) (i : Nat) (position : Position) (text : String) : (m.report i position text).Own R :=
  h.fills (fills_report m i position text) (h.excused.report i position text)

/-- a report is one more diagnostic of the module -/
theorem Own.diagnostics_report (h : m.Own R) (hi : i < m.scopes.size) (position : Position) (text : String) :
    (m.report i position text).diagnostics 0 = m.diagnostics 0 ++ [⟨position, text⟩] := by
  obtain ⟨s, exports, hs, hk⟩ := diagnostics_of_isGlobal h.ordered h.global
  refine diagnostics_eq (s := { s with kind := .global exports (m.diagnostics 0 ++ [⟨position, text⟩]) })
    (h.report i position text).ordered ?_ rfl
  unfold Arena.report
  rw [get?_update, if_pos (h.root i hi), hs, Option.map_some]
  simp only [hk]

theorem Own.diagnostics_of_kind (h : m.Own R) (hb : b.Own R)
    (hkind : (b.get? 0).map Scope.kind = (m.get? 0).map Scope.kind) :
    b.diagnostics 0 = m.diagnostics 0 := by
  obtain ⟨s, exports, hs, hk⟩ := diagnostics_of_isGlobal h.ordered h.global
  rw [hs, Option.map_some] at hkind
  obtain ⟨t, ht, hsame⟩ := Option.map_eq_some_iff.1 hkind
  exact diagnostics_eq hb.ordered ht (hsame.trans hk)

/-- a name that is taken is reported, and a new one is not -/
def redeclared (cell : Option Cell) (name : String) (position : Position) : List Diagnostic :=
  if cell.isNone then [⟨position, "'" ++ name ++ "' is already declared"⟩] else []

theorem Own.newVariable (h : m.Own R) (hi : i < m.scopes.size) (hty : ty.Excused R) (name : String)
    (position : Position) : (m.newVariable i name ty position).2.Own R ∧
      (m.newVariable i name ty position).2.diagnostics 0 =
        m.diagnostics 0 ++ redeclared (m.newVariable i name ty position).1 name position := by
  have hown := h.fills (fills_newVariable m i name ty position) (h.excused.newVariable hty i name position)
  refine ⟨hown, ?_⟩
  cases hvar : m.hasVariable i name with
  | true =>
    rw [newVariable_of_hasVariable hvar]
    exact h.diagnostics_report hi position _
  | false =>
    rw [newVariable_of_not_hasVariable hvar] at hown ⊢
    refine (h.diagnostics_of_kind hown ?_).trans (List.append_nil _).symm
    rw [get?_extend]
    split
    · rw [Option.map_map]; rfl
    · rfl

theorem Own.newParameter (h : m.Own R) (hi : i < m.scopes.size) (hty : ty.Excused R) (name : String)
    (position : Position) : (m.newParameter i name ty position).2.Own R ∧
      (m.newParameter i name ty position).2.diagnostics 0 =
        m.diagnostics 0 ++ redeclared (m.newParameter i name ty position).1 name position := by
  have hown := h.fills (fills_newParameter m i name ty position) (h.excused.newParameter hty i name position)
  refine ⟨hown, ?_⟩
  rw [newParameter_eq] at hown ⊢
  split
  · exact h.diagnostics_report hi position _
  · next hvar =>
    rw [if_neg hvar] at hown
    refine (h.diagnostics_of_kind hown ?_).trans (List.append_nil _).symm
    rw [get?_update, get?_extend]
    split <;> cases m.get? 0 <;> rfl

/-- an export that is refused is reported -/
theorem Own.addExport (h : m.Own R) (hi : i < m.scopes.size) (hty : ty.Excused R) (name : String)
    (position : Position) : (m.addExport i name ty position).2.Own R ∧
      (m.addExport i name ty position).2.diagnostics 0 = m.diagnostics 0 ++
        if (m.addExport i name ty position).1 then []
        else if (m.export? i name).isSome then [⟨position, "'" ++ name ++ "' is already exported"⟩]
        else [⟨position, exportNotAtTop⟩] := by
  have hown := h.fills (fills_addExport m i name ty position) (h.excused.addExport hty i name position)
  refine ⟨hown, ?_⟩
  unfold Arena.addExport at hown ⊢
  split
  · exact h.diagnostics_report hi position _
  split
  · exact h.diagnostics_report hi position _
  · next hexport hglobal =>
    rw [if_neg hexport, if_neg hglobal] at hown
    rw [if_pos rfl, List.append_nil]
    obtain ⟨s, exports, hs, hk⟩ := diagnostics_of_isGlobal h.ordered h.global
    by_cases hi0 : i = 0
    · subst hi0
      refine diagnostics_eq
        (s := { s with kind := .global (exports ++ [(name, ty)]) (m.diagnostics 0) }) hown.ordered ?_ rfl
      rw [get?_update, if_pos rfl, hs, Option.map_some]
      simp only [hk]
    · exact h.diagnostics_of_kind hown (by rw [get?_update, if_neg hi0])

theorem Own.newLocal (h : m.Own R) (hi : i < m.scopes.size) {signature : Signature}
    (hty : signature.ty.hasError = false) : (m.newLocal i signature).2.Own R ∧
      (m.newLocal i signature).2.diagnostics 0 = m.diagnostics 0 := by
  have hsize : (m.newLocal i signature).2.scopes.size = m.scopes.size + 1 := size_add _ _
  have hold {x : Nat} (hx : x < m.scopes.size) : (m.newLocal i signature).2.get? x = m.get? x :=
    (get?_add _ _ _).trans (if_neg (Nat.ne_of_lt hx))
  have hlater := later_add m (.ofKind (.local i signature))
  have hordered := h.ordered.newLocal hi signature
  have hown : (m.newLocal i signature).2.Own R := by
    refine ⟨hordered, fun x hx => ?_, hlater.isGlobal_of h.global, h.excused.newLocal hty i⟩
    by_cases hnew : x < m.scopes.size
    · exact (hlater.root hordered hnew).trans (h.root x hnew)
    · obtain rfl : x = m.scopes.size := by omega
      have hparent : (m.newLocal i signature).2.parent? m.scopes.size = some i :=
        parent?_eq_some_iff.2 ⟨_, signature, (get?_add _ _ _).trans (if_pos rfl), rfl⟩
      rw [root_of_parent? hordered hparent]
      exact (hlater.root hordered hi).trans (h.root i hi)
  exact ⟨hown, h.diagnostics_of_kind hown (by rw [hold (lt_of_isGlobal h.global)])⟩

theorem own_start : Own R empty.newGlobal.2 := by
  have hempty : empty.Excused R := fun x s hs => by simp [get?, empty] at hs
  have hordered := (extension_newGlobal wellFormed_empty).wellFormed.ordered
  have hglobal : empty.newGlobal.2.isGlobal 0 = true := rfl
  refine ⟨hordered, fun x hx => ?_, hglobal, hempty.newGlobal⟩
  obtain rfl : x = 0 := by simpa [newGlobal, empty] using hx
  exact root_of_isGlobal hordered hglobal

end Arena

end TypedScript
