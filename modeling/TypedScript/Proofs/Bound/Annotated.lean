/-
Notes at the places of code: the height of the stack there, or the types of the operands. Code is annotated from one
note to another if every place can be given a note such that each instruction suits the note at its own place and those
at the places that it leads to, and leads only forward and as far as just behind the code. Annotated code can be put
behind annotated code and inside a condition.

- `Code.Annotated.append`, `Code.Annotated.branch`: code behind code, and code under a condition.
- `Code.Annotated.relabel`: another note at the end of code.
-/
import TypedScript.Proofs.Machine.Steps

namespace TypedScript

namespace Code

/-- how notes go with instructions: what an instruction asks of the note at its place, and which notes it leads to -/
structure Rules (α : Type) where
  here : Instruction → α → Prop
  leads : Instruction → α → α → Prop

variable {α : Type} {R : Rules α} {f g : Nat → α} {start place last : Nat} {a b c : α}
  {code code' : Code} {i : Instruction}

/-- an instruction suits the notes around it; it leads forward as far as `last` -/
structure Suits (R : Rules α) (f : Nat → α) (place last : Nat) (i : Instruction) : Prop where
  here : R.here i (f place)
  leads : ∀ next ∈ i.leads place, place < next ∧ next ≤ last ∧ R.leads i (f place) (f next)

/-- the places of code that stands at `start` can be given notes, from `a` at its start to `b` behind it -/
def Annotated (R : Rules α) (start : Nat) (a : α) (code : Code) (b : α) : Prop :=
  ∃ f : Nat → α, f start = a ∧ f (start + code.length) = b ∧
    ∀ k i, code[k]? = some i → Suits R f (start + k) (start + code.length) i

/-- an instruction suits other notes that are the same near it -/
theorem Suits.congr (h : Suits R f place last i) (hplace : place ≤ last) {last' : Nat} (hlast : last ≤ last')
    (hg : ∀ j, place ≤ j → j ≤ last → g j = f j) : Suits R g place last' i := by
  have hhere := hg place (Nat.le_refl _) hplace
  refine ⟨hhere ▸ h.here, fun next hnext => ?_⟩
  obtain ⟨hlt, hle, hleads⟩ := h.leads next hnext
  refine ⟨hlt, Nat.le_trans hle hlast, ?_⟩
  rw [hhere, hg next (Nat.le_of_lt hlt) hle]
  exact hleads

theorem annotated_nil : Annotated R start a [] a := ⟨fun _ => a, rfl, rfl, fun _ _ h => nomatch h⟩

/-- code that goes on with the note that the code behind it starts with -/
theorem Annotated.append (h : Annotated R start a code b) (h' : Annotated R (start + code.length) b code' c) :
    Annotated R start a (code ++ code') c := by
  obtain ⟨f, hstart, hmid, hsuits⟩ := h
  obtain ⟨g, hmid', hend, hsuits'⟩ := h'
  have hlength : start + (code ++ code').length = start + code.length + code'.length := by
    rw [List.length_append, Nat.add_assoc]
  -- the notes of the first part as far as it goes, where both parts agree on its end
  let both (j : Nat) : α := if j ≤ start + code.length then f j else g j
  have hleft {j : Nat} (hj : j ≤ start + code.length) : both j = f j := if_pos hj
  have hright {j : Nat} (hj : start + code.length ≤ j) : both j = g j := by
    rcases Nat.eq_or_lt_of_le hj with rfl | hlt
    · rw [hleft (Nat.le_refl _), hmid, hmid']
    · exact if_neg (Nat.not_le.2 hlt)
  refine ⟨both, (hleft (Nat.le_add_right _ _)).trans hstart, ?_, fun k i hi => ?_⟩
  · rw [hlength, hright (Nat.le_add_right _ _), hend]
  · rw [hlength]
    by_cases hk : k < code.length
    · rw [List.getElem?_append_left hk] at hi
      exact (hsuits k i hi).congr (by omega) (Nat.le_add_right _ _) fun j _ hj => hleft hj
    · rw [List.getElem?_append_right (Nat.le_of_not_lt hk)] at hi
      have hlt := (List.getElem?_eq_some_iff.1 hi).1
      have hsuit := hsuits' (k - code.length) i hi
      rw [show start + code.length + (k - code.length) = start + k from by omega] at hsuit
      exact hsuit.congr (by omega) (Nat.le_refl _) fun j hj _ => hright (by omega)

/-- one instruction, which leads nowhere but to the next place -/
theorem annotated_single (hhere : R.here i a) (hleads : ∀ next ∈ i.leads start, next = start + 1 ∧ R.leads i a b) :
    Annotated R start a [i] b := by
  have hne : start + 1 ≠ start := Nat.succ_ne_self start
  refine ⟨fun j => if j = start then a else b, if_pos rfl, if_neg hne, fun k j hj => ?_⟩
  obtain ⟨rfl, rfl⟩ : k = 0 ∧ i = j := by
    cases k with
    | zero => exact ⟨rfl, Option.some.inj hj⟩
    | succ k => cases hj
  have hplace : (if start + 0 = start then a else b) = a := if_pos rfl
  refine ⟨by rw [hplace]; exact hhere, fun next hnext => ?_⟩
  obtain ⟨rfl, h⟩ := hleads next hnext
  refine ⟨Nat.lt_succ_self _, Nat.le_refl _, ?_⟩
  rw [hplace, if_neg hne]
  exact h

/-- an instruction after which the body goes on with the next one -/
theorem annotated_onward (hnext : i.leads start = [start + 1]) (hhere : R.here i a) (hleads : R.leads i a b) :
    Annotated R start a [i] b := by
  refine annotated_single hhere fun next hmem => ?_
  rw [hnext, List.mem_singleton] at hmem
  exact ⟨hmem, hleads⟩

/-- an instruction that leaves the body does not come to what is behind -/
theorem annotated_leaving (hnext : i.leads start = []) (hhere : R.here i a) : Annotated R start a [i] b := by
  refine annotated_single hhere fun next hmem => ?_
  rw [hnext] at hmem
  cases hmem

/-- what leads to the end of code with one note may lead there with another one -/
theorem Annotated.relabel (h : Annotated R start a code b) (hleads : ∀ i x, R.leads i x b → R.leads i x c)
    (hnil : code = [] → a = c) : Annotated R start a code c := by
  obtain ⟨f, hstart, hend, hsuits⟩ := h
  cases code with
  | nil =>
    obtain rfl := hnil rfl
    exact annotated_nil
  | cons first code =>
    let last := start + (first :: code).length
    let notes (j : Nat) : α := if j = last then c else f j
    have hbefore {j : Nat} (hj : j < last) : notes j = f j := if_neg (Nat.ne_of_lt hj)
    have hfirst : start < last := Nat.lt_add_of_pos_right (Nat.zero_lt_succ code.length)
    refine ⟨notes, (hbefore hfirst).trans hstart, if_pos rfl, fun k i hi => ?_⟩
    have hlt := (List.getElem?_eq_some_iff.1 hi).1
    have hplace : notes (start + k) = f (start + k) := hbefore (Nat.add_lt_add_left hlt start)
    refine ⟨hplace ▸ (hsuits k i hi).here, fun next hnext => ?_⟩
    obtain ⟨hafter, hle, h⟩ := (hsuits k i hi).leads next hnext
    refine ⟨hafter, hle, ?_⟩
    rw [hplace]
    rcases Nat.eq_or_lt_of_le hle with rfl | hbehind
    · rw [show notes last = c from if_pos rfl]
      exact hleads i _ (hend ▸ h)
    · rw [hbefore hbehind]
      exact h

/-- both ways from a condition come to what is behind with the same note -/
theorem Annotated.branch (hhere : ∀ target, R.here (.jumpIfFalse target) a)
    (hleads : ∀ target, R.leads (.jumpIfFalse target) a b) (h : Annotated R (start + 1) b code b) :
    Annotated R start a (.jumpIfFalse (start + 1 + code.length) :: code) b := by
  obtain ⟨f, hstart, hend, hsuits⟩ := h
  have hlength (i : Instruction) : start + (i :: code).length = start + 1 + code.length := by
    rw [List.length_cons]
    omega
  let both (j : Nat) : α := if j = start then a else f j
  have hright {j : Nat} (hj : start < j) : both j = f j := if_neg (Nat.ne_of_gt hj)
  refine ⟨both, if_pos rfl, ?_, fun k i hi => ?_⟩
  · rw [hlength, hright (by omega), hend]
  rw [hlength]
  cases k with
  | zero =>
    obtain rfl := Option.some.inj hi
    have hplace : both (start + 0) = a := if_pos rfl
    refine ⟨hplace ▸ hhere _, fun next hnext => ?_⟩
    rw [hplace]
    rcases List.mem_cons.1 hnext with rfl | hnext
    · rw [hright (Nat.lt_succ_self _)]
      exact ⟨Nat.lt_succ_self _, by omega, hstart ▸ hleads _⟩
    · obtain rfl := List.mem_singleton.1 hnext
      rw [hright (by omega), hend]
      exact ⟨by omega, Nat.le_refl _, hleads _⟩
  | succ k =>
    have hlt := (List.getElem?_eq_some_iff.1 hi).1
    have hsuit := hsuits k i hi
    rw [List.length_cons] at hlt
    rw [show start + 1 + k = start + (k + 1) from by omega] at hsuit
    exact hsuit.congr (by omega) (Nat.le_refl _) fun j hj _ => hright (by omega)

end Code

end TypedScript
