/-
Whole numbers at their limits. The machine's numbers are 64 bits wide: sums, differences and products are those of the
integers, reduced into the signed range, and a quotient goes toward zero. Only one quotient leaves that range, that of
the least number and minus one, and it comes to the least number again.

- `Int64.div_mul_add_mod`: a quotient and its remainder make the number divided, also where the quotient wraps around.
- `Int64.natAbs_mod_lt`, `Int64.sign_mod`: how large a remainder is, and its sign.
- `integers_wrap`: what every operator makes of any two numbers.
-/
import Mathlib.Algebra.Group.Nat.Defs
import TypedScript.Proofs.Machine.Operators

/-! ## Quotients and remainders -/

namespace Int64

theorem div_mul_add_mod (l r : Int64) : l / r * r + l % r = l := by
  rw [← toInt_inj, toInt_add, toInt_mul, toInt_div, toInt_mod, Int.bmod_add_bmod]
  -- the wrapped quotient differs from the exact one by a multiple of the modulus, and so does its product
  calc ((l.toInt.tdiv r.toInt).bmod (2 ^ 64) * r.toInt + l.toInt.tmod r.toInt).bmod (2 ^ 64)
      = (l.toInt.tdiv r.toInt * r.toInt + l.toInt.tmod r.toInt).bmod (2 ^ 64) := by
        rw [← Int.bmod_add_bmod, Int.bmod_mul_bmod, Int.bmod_add_bmod]
    _ = l.toInt.bmod (2 ^ 64) := by rw [Int.tdiv_mul_add_tmod]
    _ = l.toInt := l.toInt_bmod

theorem toInt_ne_zero {r : Int64} (h : r ≠ 0) : r.toInt ≠ 0 := by
  intro hzero
  exact h (toInt_inj.1 (hzero.trans toInt_zero.symm))

/-- a remainder is smaller than the divisor, whose size may itself be out of range -/
theorem natAbs_mod_lt (l : Int64) {r : Int64} (h : r ≠ 0) : (l % r).toInt.natAbs < r.toInt.natAbs := by
  rw [toInt_mod, Int.natAbs_tmod]
  exact Nat.mod_lt _ (Int.natAbs_pos.2 (toInt_ne_zero h))

theorem sign_mod (l r : Int64) : (l % r).toInt = 0 ∨ (l % r).toInt.sign = l.toInt.sign := by
  rw [toInt_mod]
  by_cases hdvd : r.toInt ∣ l.toInt
  · exact Or.inl (Int.tmod_eq_zero_of_dvd hdvd)
  · exact Or.inr (by rw [Int.sign_tmod, if_neg hdvd])

theorem toInt_div_of_not_least {l r : Int64} (h : ¬ (l = minValue ∧ r = -1)) :
    (l / r).toInt = l.toInt.tdiv r.toInt := by
  by_cases hl : l = minValue
  · exact toInt_div_of_ne_right l r fun hr => h ⟨hl, hr⟩
  · exact toInt_div_of_ne_left l r hl

theorem minValue_mod_neg_one : minValue % -1 = 0 := by decide

end Int64

namespace TypedScript

variable {σ : Type}

/-! ## Instructions -/

/-- two numbers come to what the operator makes of numbers, for all operators but those on truth values -/
theorem BinaryOp.apply_int {op : BinaryOp} (hop : op ∉ [and, or]) (l r : Int64) :
    op.apply (.int l : Value) (.int r) = op.onInts l r := by
  cases op with
  | and => exact absurd (by simp) hop
  | or => exact absurd (by simp) hop
  | equals => simp only [apply, onInts, Value.eqv]
  | notEquals => simp only [apply, onInts, Value.eqv, ne_eq, decide_not]
  | _ => rfl

theorem Run.execute_int (host : Host σ) {op : BinaryOp} (hop : op ∉ [.and, .or]) (frame : FrameId) (l r : Int64)
    (stack : Operands) (m : Machine σ) :
    execute host frame (.int r :: .int l :: stack) (.binary op) m =
      match op.onInts l r with
      | .ok u => .ok (.next (u :: stack)) m
      | .error fault => .error (.fault fault) m := by
  have hrun := execute_binary host frame op (.int l) (.int r) stack m
  rw [BinaryOp.apply_int hop] at hrun
  exact hrun

/-- Any two numbers, under any operator that takes numbers. Sums, differences and products are the exact ones, reduced
modulo `2 ^ 64` into the signed range. A division is refused just if the divisor is zero. Otherwise quotient and
remainder make the dividend in the machine's own arithmetic, the remainder is smaller than the divisor and is zero or
has the dividend's sign, and the quotient is the exact one truncated toward zero; only the least number by minus one
gives the least number, and no remainder. The comparisons are those of the integers. Each time the two operands make
room for the one value, and nothing else changes. -/
theorem integers_wrap (host : Host σ) (frame : FrameId) (stack : Operands) (m : Machine σ) (l r : Int64) :
    let run op := Run.execute host frame (.int r :: .int l :: stack) (.binary op) m
    let gives op v := run op = .ok (.next (v :: stack)) m
    (gives .add (.int (l + r)) ∧ (l + r).toInt = (l.toInt + r.toInt).bmod (2 ^ 64)) ∧
    (gives .subtract (.int (l - r)) ∧ (l - r).toInt = (l.toInt - r.toInt).bmod (2 ^ 64)) ∧
    (gives .multiply (.int (l * r)) ∧ (l * r).toInt = (l.toInt * r.toInt).bmod (2 ^ 64)) ∧
    (run .divide = .error (.fault .divisionByZero) m ↔ r = 0) ∧
    (run .modulo = .error (.fault .divisionByZero) m ↔ r = 0) ∧
    (r ≠ 0 → ∃ q rest, gives .divide (.int q) ∧ gives .modulo (.int rest) ∧ q * r + rest = l ∧
      rest.toInt.natAbs < r.toInt.natAbs ∧ (rest.toInt = 0 ∨ rest.toInt.sign = l.toInt.sign) ∧
      if l = Int64.minValue ∧ r = -1 then q = Int64.minValue ∧ rest = 0 else q.toInt = l.toInt.tdiv r.toInt) ∧
    gives .less (.bool (l.toInt < r.toInt)) ∧
    gives .lessEquals (.bool (l.toInt ≤ r.toInt)) ∧
    gives .greater (.bool (l.toInt > r.toInt)) ∧
    gives .greaterEquals (.bool (l.toInt ≥ r.toInt)) ∧
    gives .equals (.bool (l.toInt = r.toInt)) ∧
    gives .notEquals (.bool (l.toInt ≠ r.toInt)) := by
  intro run gives
  have hrun {op : BinaryOp} (hop : op ∉ [.and, .or]) := Run.execute_int host hop frame l r stack m
  have hgives {op : BinaryOp} (hop : op ∉ [.and, .or]) {v : Value} (hv : op.onInts l r = .ok v) : gives op v := by
    dsimp only [gives, run]
    rw [hrun hop, hv]
  have hrefuses {op : BinaryOp} (hop : op ∉ [.and, .or]) {v : Value}
      (hv : op.onInts l r = if r = 0 then .error .divisionByZero else .ok v) :
      run op = .error (.fault .divisionByZero) m ↔ r = 0 := by
    dsimp only [run]
    rw [hrun hop, hv]
    by_cases hr : r = 0
    · rw [if_pos hr]
      exact ⟨fun _ => hr, fun _ => rfl⟩
    · rw [if_neg hr]
      exact ⟨fun h => (nomatch h), fun h => absurd h hr⟩
  refine ⟨⟨hgives (by decide) rfl, Int64.toInt_add l r⟩, ⟨hgives (by decide) rfl, Int64.toInt_sub l r⟩,
    ⟨hgives (by decide) rfl, Int64.toInt_mul l r⟩, hrefuses (by decide) rfl, hrefuses (by decide) rfl, ?_, ?_⟩
  · intro hr
    refine ⟨l / r, l % r, hgives (by decide) (if_neg hr), hgives (by decide) (if_neg hr), Int64.div_mul_add_mod l r,
      Int64.natAbs_mod_lt l hr, Int64.sign_mod l r, ?_⟩
    split
    · next hleast =>
      obtain ⟨rfl, rfl⟩ := hleast
      exact ⟨Int64.minValue_div_neg_one, Int64.minValue_mod_neg_one⟩
    · next hleast => exact Int64.toInt_div_of_not_least hleast
  · -- the machine compares its numbers as the integers they stand for
    have hints : (l < r) = (l.toInt < r.toInt) ∧ (l ≤ r) = (l.toInt ≤ r.toInt) ∧ (r < l) = (l.toInt > r.toInt) ∧
        (r ≤ l) = (l.toInt ≥ r.toInt) ∧ (l = r) = (l.toInt = r.toInt) ∧ (l ≠ r) = (l.toInt ≠ r.toInt) :=
      ⟨propext Int64.lt_iff_toInt_lt, propext Int64.le_iff_toInt_le, propext Int64.lt_iff_toInt_lt,
        propext Int64.le_iff_toInt_le, propext Int64.toInt_inj.symm, propext (not_congr Int64.toInt_inj.symm)⟩
    obtain ⟨hless, hlessEquals, hgreater, hgreaterEquals, hequals, hnotEquals⟩ := hints
    refine ⟨hgives (by decide) ?_, hgives (by decide) ?_, hgives (by decide) ?_, hgives (by decide) ?_,
      hgives (by decide) ?_, hgives (by decide) ?_⟩
    · simp only [BinaryOp.onInts, hless]
    · simp only [BinaryOp.onInts, hlessEquals]
    · simp only [BinaryOp.onInts, hgreater]
    · simp only [BinaryOp.onInts, hgreaterEquals]
    · simp only [BinaryOp.onInts, hequals]
    · simp only [BinaryOp.onInts, hnotEquals]

/-- the least number by minus one -/
theorem integers_wrap_least :
    Run.execute mute 0 [.int (-1), .int Int64.minValue] (.binary .divide) (.new mute 1 ()) =
      .ok (.next [.int Int64.minValue]) (.new mute 1 ()) := by
  have hne : (-1 : Int64) ≠ 0 := by decide
  obtain ⟨_, _, _, _, _, hdivides, _⟩ := integers_wrap mute 0 [] (.new mute 1 ()) Int64.minValue (-1)
  obtain ⟨q, rest, hq, _, _, _, _, hleast⟩ := hdivides hne
  rw [if_pos ⟨rfl, rfl⟩] at hleast
  obtain ⟨rfl, _⟩ := hleast
  exact hq

end TypedScript
