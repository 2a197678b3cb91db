/-
Equality of types is consistency up to `Any`. A type in which `Any` stands somewhere is short for many types: each `Any`
in it may be filled in by a type of its own, as long as that type has values to speak of, so not by `Void`. Two types
are equal to the check just if they can be filled in to become the same type. So equality is reflexive but for the error
type, and symmetric; it is not transitive, since each comparison fills in anew.

- `Ty.Fills`: a type with each `Any` in it filled in.
- `Ty.exists_common`, `Ty.equals_of_common`: equal types have a common filling, and types with one are equal.
- `Ty.equals_iff_consistent`: equality of types, with and without `Any` in them.
-/
import TypedScript.Proofs.Typing.Arena.Excused
import TypedScript.Proofs.Typing.Plain

namespace TypedScript.Ty

variable {l r t g : Ty} {ls rs ts gs : List Ty}

/-! ## Filling in -/

mutual

/-- a type with each `Any` in it replaced by a type of its own, in which no `Any` stands -/
inductive Fills : Ty → Ty → Prop
  | any {g : Ty} (genuine : g.isGenuine = true) (value : g.isVoid = false) : Fills .any g
  | error : Fills .error .error
  | void : Fills .void .void
  | ident (name : String) : Fills (.ident name) (.ident name)
  | list {element filled : Ty} (h : Fills element filled) : Fills (.list element) (.list filled)
  | optional {child filled : Ty} (h : Fills child filled) : Fills (.optional child) (.optional filled)
  | tuple {items filled : List Ty} (h : FillsAll items filled) : Fills (.tuple items) (.tuple filled)
  | function {params filled : List Ty} {result filled' : Ty} (hparams : FillsAll params filled)
      (hresult : Fills result filled') : Fills (.function params result) (.function filled filled')

/-- each of some types filled in -/
inductive FillsAll : List Ty → List Ty → Prop
  | nil : FillsAll [] []
  | cons {t g : Ty} {ts gs : List Ty} (head : Fills t g) (tail : FillsAll ts gs) : FillsAll (t :: ts) (g :: gs)

end

/-- only `Void` is filled in as `Void` -/
theorem Fills.isVoid (h : t.Fills g) : g.isVoid = t.isVoid := by
  cases h with
  | any _ value => exact value
  | _ => rfl

mutual

/-- a type is genuine just if neither `Any` nor the error type stands in it -/
theorem isGenuine_iff (t : Ty) : t.isGenuine = true ↔ t.hasAny = false ∧ t.hasError = false := by
  cases t with
  | list element => exact isGenuine_iff element
  | optional child => exact isGenuine_iff child
  | tuple items => exact allGenuine_iff items
  | function params result =>
    simp only [isGenuine, hasAny, hasError, Bool.and_eq_true, Bool.or_eq_false_iff, allGenuine_iff params,
      isGenuine_iff result]
    exact and_and_and_comm
  | _ => simp [isGenuine, hasAny, hasError]
termination_by structural t

theorem allGenuine_iff (ts : List Ty) : allGenuine ts = true ↔ anyHasAny ts = false ∧ anyHasError ts = false := by
  cases ts with
  | nil => simp [allGenuine, anyHasAny, anyHasError]
  | cons t ts =>
    simp only [allGenuine, anyHasAny, anyHasError, Bool.and_eq_true, Bool.or_eq_false_iff, isGenuine_iff t,
      allGenuine_iff ts]
    exact and_and_and_comm
termination_by structural ts

end

mutual

/-- a type without the error type in it can be filled in -/
theorem exists_fills (t : Ty) (h : t.hasError = false) : ∃ g, g.isGenuine = true ∧ t.Fills g := by
  cases t with
  | error => cases h
  | any => exact ⟨int, rfl, .any rfl rfl⟩
  | void => exact ⟨void, rfl, .void⟩
  | ident name => exact ⟨ident name, rfl, .ident name⟩
  | list element =>
    obtain ⟨g, hg, hfills⟩ := exists_fills element h
    exact ⟨list g, hg, .list hfills⟩
  | optional child =>
    obtain ⟨g, hg, hfills⟩ := exists_fills child h
    exact ⟨optional g, hg, .optional hfills⟩
  | tuple items =>
    obtain ⟨gs, hgs, hfills⟩ := exists_fillsAll items h
    exact ⟨tuple gs, hgs, .tuple hfills⟩
  | function params result =>
    obtain ⟨hparams, hresult⟩ := Bool.or_eq_false_iff.1 h
    obtain ⟨gs, hgs, hfillsAll⟩ := exists_fillsAll params hparams
    obtain ⟨g, hg, hfills⟩ := exists_fills result hresult
    exact ⟨function gs g, Bool.and_eq_true_iff.2 ⟨hgs, hg⟩, .function hfillsAll hfills⟩
termination_by structural t

theorem exists_fillsAll (ts : List Ty) (h : anyHasError ts = false) : ∃ gs, allGenuine gs = true ∧ FillsAll ts gs := by
  cases ts with
  | nil => exact ⟨[], rfl, .nil⟩
  | cons t ts =>
    obtain ⟨ht, hts⟩ := Bool.or_eq_false_iff.1 h
    obtain ⟨g, hg, hfills⟩ := exists_fills t ht
    obtain ⟨gs, hgs, hfillsAll⟩ := exists_fillsAll ts hts
    exact ⟨g :: gs, Bool.and_eq_true_iff.2 ⟨hg, hgs⟩, .cons hfills hfillsAll⟩
termination_by structural ts

end

/-! ## Equality -/

mutual

/-- a type equals itself unless the error type stands in it -/
theorem equals_self (t : Ty) : t.equals t = true ↔ t.hasError = false := by
  cases t with
  | list element => exact equals_self element
  | optional child => exact equals_self child
  | tuple items => exact allEqual_self items
  | function params result =>
    simp only [equals, hasError, Bool.and_eq_true, Bool.or_eq_false_iff, allEqual_self params, equals_self result]
  | _ => simp [equals, hasError]
termination_by structural t

theorem allEqual_self (ts : List Ty) : allEqual ts ts = true ↔ anyHasError ts = false := by
  cases ts with
  | nil => simp [allEqual, anyHasError]
  | cons t ts =>
    simp only [allEqual, anyHasError, Bool.and_eq_true, Bool.or_eq_false_iff, equals_self t, allEqual_self ts]
termination_by structural ts

end

/-- `Any` becomes whatever a type that equals it is filled in as -/
theorem exists_common_any (ht : t.hasError = false) (h : any.equals t = true) :
    ∃ g, g.isGenuine = true ∧ any.Fills g ∧ t.Fills g := by
  obtain ⟨g, hg, hfills⟩ := exists_fills t ht
  have hvoid : t.isVoid = false := by
    cases t with
    | void => cases h
    | _ => rfl
  exact ⟨g, hg, .any hg (hfills.isVoid.trans hvoid), hfills⟩

mutual

/-- equal types have a common filling -/
theorem exists_common (l r : Ty) (hl : l.hasError = false) (hr : r.hasError = false) (h : l.equals r = true) :
    ∃ g, g.isGenuine = true ∧ l.Fills g ∧ r.Fills g := by
  have hwildcard (heq : r = any) : ∃ g, g.isGenuine = true ∧ l.Fills g ∧ r.Fills g := by
    subst heq
    rw [equals_comm] at h
    obtain ⟨g, hg, hany, hfills⟩ := exists_common_any hl h
    exact ⟨g, hg, hfills, hany⟩
  cases l with
  | error => cases hl
  | any => exact exists_common_any hr h
  | void =>
    cases r with
    | void => exact ⟨void, rfl, .void, .void⟩
    | _ => cases h
  | ident name =>
    cases r with
    | any => exact hwildcard rfl
    | ident name' =>
      obtain rfl : name = name' := of_decide_eq_true h
      exact ⟨ident name, rfl, .ident name, .ident name⟩
    | _ => cases h
  | list element =>
    cases r with
    | any => exact hwildcard rfl
    | list element' =>
      obtain ⟨g, hg, hfills, hfills'⟩ := exists_common element element' hl hr h
      exact ⟨list g, hg, .list hfills, .list hfills'⟩
    | _ => cases h
  | optional child =>
    cases r with
    | any => exact hwildcard rfl
    | optional child' =>
      obtain ⟨g, hg, hfills, hfills'⟩ := exists_common child child' hl hr h
      exact ⟨optional g, hg, .optional hfills, .optional hfills'⟩
    | _ => cases h
  | tuple items =>
    cases r with
    | any => exact hwildcard rfl
    | tuple items' =>
      obtain ⟨gs, hgs, hfills, hfills'⟩ := exists_commonAll items items' hl hr h
      exact ⟨tuple gs, hgs, .tuple hfills, .tuple hfills'⟩
    | _ => cases h
  | function params result =>
    cases r with
    | any => exact hwildcard rfl
    | function params' result' =>
      obtain ⟨hparams, hresult⟩ := Bool.or_eq_false_iff.1 hl
      obtain ⟨hparams', hresult'⟩ := Bool.or_eq_false_iff.1 hr
      obtain ⟨heqs, heq⟩ := Bool.and_eq_true_iff.1 h
      obtain ⟨gs, hgs, hfillsAll, hfillsAll'⟩ := exists_commonAll params params' hparams hparams' heqs
      obtain ⟨g, hg, hfills, hfills'⟩ := exists_common result result' hresult hresult' heq
      exact ⟨function gs g, Bool.and_eq_true_iff.2 ⟨hgs, hg⟩, .function hfillsAll hfills,
        .function hfillsAll' hfills'⟩
    | _ => cases h
termination_by structural l

theorem exists_commonAll (ls rs : List Ty) (hl : anyHasError ls = false) (hr : anyHasError rs = false)
    (h : allEqual ls rs = true) : ∃ gs, allGenuine gs = true ∧ FillsAll ls gs ∧ FillsAll rs gs := by
  cases ls with
  | nil =>
    cases rs with
    | nil => exact ⟨[], rfl, .nil, .nil⟩
    | cons r rs => cases h
  | cons l ls =>
    cases rs with
    | nil => cases h
    | cons r rs =>
      obtain ⟨hl, hls⟩ := Bool.or_eq_false_iff.1 hl
      obtain ⟨hr, hrs⟩ := Bool.or_eq_false_iff.1 hr
      obtain ⟨heq, heqs⟩ := Bool.and_eq_true_iff.1 h
      obtain ⟨g, hg, hfills, hfills'⟩ := exists_common l r hl hr heq
      obtain ⟨gs, hgs, hfillsAll, hfillsAll'⟩ := exists_commonAll ls rs hls hrs heqs
      exact ⟨g :: gs, Bool.and_eq_true_iff.2 ⟨hg, hgs⟩, .cons hfills hfillsAll, .cons hfills' hfillsAll'⟩
termination_by structural ls

end

/-- whatever can be filled in as a genuine type other than `Void` equals `Any` -/
theorem equals_any_of_fills (hg : g.isGenuine = true) (hvalue : g.isVoid = false) (h : t.Fills g) :
    any.equals t = true := by
  cases h with
  | error => cases hg
  | void => cases hvalue
  | _ => rfl

mutual

/-- types with a common filling are equal -/
theorem equals_of_common (l r : Ty) {g : Ty} (hl : l.Fills g) (hr : r.Fills g) (hg : g.isGenuine = true) :
    l.equals r = true := by
  cases hl with
  | any _ value => exact equals_any_of_fills hg value hr
  | error => cases hg
  | void =>
    cases hr with
    | any _ value => cases value
    | void => rfl
  | ident name =>
    cases hr with
    | any => rfl
    | ident => exact decide_eq_true rfl
  | @list element _ hl =>
    cases hr with
    | any => rfl
    | @list element' _ hr => exact equals_of_common element element' hl hr hg
  | @optional child _ hl =>
    cases hr with
    | any => rfl
    | @optional child' _ hr => exact equals_of_common child child' hl hr hg
  | @tuple items _ hl =>
    cases hr with
    | any => rfl
    | @tuple items' _ hr => exact allEqual_of_common items items' hl hr hg
  | @function params _ result _ hparams hresult =>
    cases hr with
    | any => rfl
    | @function params' _ result' _ hparams' hresult' =>
      obtain ⟨hgs, hg⟩ := Bool.and_eq_true_iff.1 hg
      exact Bool.and_eq_true_iff.2 ⟨allEqual_of_common params params' hparams hparams' hgs,
        equals_of_common result result' hresult hresult' hg⟩
termination_by structural l

theorem allEqual_of_common (ls rs : List Ty) {gs : List Ty} (hl : FillsAll ls gs) (hr : FillsAll rs gs)
    (hg : allGenuine gs = true) : allEqual ls rs = true := by
  cases hl with
  | nil =>
    cases hr with
    | nil => rfl
  | @cons l _ ls _ hl hls =>
    cases hr with
    | @cons r _ rs _ hr hrs =>
      obtain ⟨hg, hgs⟩ := Bool.and_eq_true_iff.1 hg
      exact Bool.and_eq_true_iff.2 ⟨equals_of_common l r hl hr hg, allEqual_of_common ls rs hls hrs hgs⟩
termination_by structural ls

end

/-- Equality of types does not depend on the order of the two, and a type equals itself just if the error type stands
nowhere in it. Two such types are equal just if each `Any` in them can be filled in, by a type other than `Void`, so
that they become the same type; where `Any` stands in neither of them, just if they are the same type already. -/
theorem equals_iff_consistent :
    (∀ l r : Ty, l.equals r = r.equals l) ∧
    (∀ t : Ty, t.equals t = true ↔ t.hasError = false) ∧
    (∀ l r : Ty, l.hasError = false → r.hasError = false →
      (l.equals r = true ↔ ∃ g, g.isGenuine = true ∧ l.Fills g ∧ r.Fills g)) ∧
    ∀ l r : Ty, l.isGenuine = true → r.isGenuine = true → (l.equals r = true ↔ l = r) := by
  refine ⟨equals_comm, equals_self, fun l r hl hr => ⟨exists_common l r hl hr, ?_⟩, fun l r hl hr => ?_⟩
  · rintro ⟨g, hg, hfills, hfills'⟩
    exact equals_of_common l r hfills hfills' hg
  · obtain ⟨hany, herror⟩ := (isGenuine_iff l).1 hl
    obtain ⟨hany', _⟩ := (isGenuine_iff r).1 hr
    constructor
    · intro h
      exact eq_of_equals hany hany' h
    · rintro rfl
      exact (equals_self l).2 herror

/-- `(Any, Void) => [Any]` and `(Int, Void) => Any` are both short for `(Int, Void) => [Str]` -/
theorem equals_iff_consistent_function :
    (function [any, void] (list any)).equals (function [int, void] any) = true ∧
    (function [any, void] (list any)).Fills (function [int, void] (list str)) ∧
    (function [int, void] any).Fills (function [int, void] (list str)) := by
  obtain ⟨_, _, hconsistent, _⟩ := equals_iff_consistent
  have hleft : (function [any, void] (list any)).Fills (function [int, void] (list str)) :=
    .function (.cons (.any rfl rfl) (.cons .void .nil)) (.list (.any rfl rfl))
  have hright : (function [int, void] any).Fills (function [int, void] (list str)) :=
    .function (.cons (.ident "Int") (.cons .void .nil)) (.any rfl rfl)
  exact ⟨(hconsistent _ _ rfl rfl).2 ⟨_, rfl, hleft, hright⟩, hleft, hright⟩

/-- equality is not transitive: `Any` is as much a number as a text -/
example : int.equals any = true ∧ any.equals str = true ∧ int.equals str = false := by decide

end TypedScript.Ty
