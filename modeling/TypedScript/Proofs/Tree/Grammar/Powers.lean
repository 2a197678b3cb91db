/-
Binding powers and the levels of the grammar. `Binds n` are the expressions that a token of the power of rank `n` may
have before it: the weaker the power, the more of them. A place of a power holds the expressions of the next rank up,
except for the weakest one, which holds assignments too (`BindingPower.floor`).

- `Binds.mono`: an expression may stand before a token of a weaker power as well.
- `exists_level`: a token that may follow an operand and has no rule of its own is an operator of some level.
-/
import TypedScript.Proofs.Tree.Grammar
import TypedScript.Proofs.Tree.Proper

namespace TypedScript

/-- the rank that an expression in a place of a power starts at -/
def BindingPower.floor (p : BindingPower) : Nat := if p = .default then 0 else p.rank + 1

namespace Grammar

/-- what may stand before a token of the power of a rank; no token has a rank above 7 -/
def Binds : Nat → List Token → Expr → Prop
  | 0 => IsExpr
  | 1 => IsBinary .or
  | 2 => IsBinary .or
  | 3 => IsBinary .and
  | 4 => IsBinary .relational
  | 5 => IsBinary .additive
  | 6 => IsBinary .multiplicative
  | 7 => IsApplied
  | _ => IsPrimary

/-- the power of a level's operators -/
def Level.power : Level → BindingPower
  | or => .logicalOr
  | and => .logicalAnd
  | relational => .relational
  | additive => .additive
  | multiplicative => .multiplicative

variable {ts : List Token} {e : Expr} {t : Token} {p q : BindingPower} {level : Level} {m n : Nat}

theorem isOperand_iff : IsOperand level ts e ↔ Binds (level.power.rank + 1) ts e := by
  constructor
  · intro h
    cases h with
    | tighter hnext h =>
      cases level <;> cases hnext <;> exact h
    | applied hnext h =>
      cases level <;> cases hnext
      exact h
  · intro h
    cases level
    · exact .tighter rfl h
    · exact .tighter rfl h
    · exact .tighter rfl h
    · exact .tighter rfl h
    · exact .applied rfl h

theorem isBinary_iff : IsBinary level ts e ↔ Binds level.power.rank ts e := by cases level <;> exact Iff.rfl

theorem Binds.pred (h : Binds (n + 1) ts e) : Binds n ts e := by
  rcases n with _ | _ | _ | _ | _ | _ | _ | _ | n
  · exact .operators h
  · exact h
  · exact .operand (isOperand_iff.2 h)
  · exact .operand (isOperand_iff.2 h)
  · exact .operand (isOperand_iff.2 h)
  · exact .operand (isOperand_iff.2 h)
  · exact .operand (isOperand_iff.2 h)
  · exact .primary h
  · exact h

theorem Binds.mono (h : Binds n ts e) (hmn : m ≤ n) : Binds m ts e := by
  induction hmn with
  | refl => exact h
  | step _ ih => exact ih h.pred

theorem rank_le (p : BindingPower) : p.rank ≤ 7 := by cases p <;> decide

theorem floor_le (p : BindingPower) : p.floor ≤ 8 := by cases p <;> decide

theorem floor_le_of_weaker (h : p.weaker q = true) : p.floor ≤ q.rank := by
  have hrank : p.rank < q.rank := of_decide_eq_true h
  unfold BindingPower.floor
  split
  · exact Nat.zero_le _
  · exact hrank

theorem weaker_of_floor_le (h : p.floor ≤ q.rank) (hq : 0 < q.rank) : p.weaker q = true := by
  unfold BindingPower.floor at h
  split at h
  · next hdefault =>
    subst hdefault
    exact decide_eq_true hq
  · exact decide_eq_true h

theorem rank_le_of_not_weaker (h : p.weaker q = false) : q.rank ≤ p.rank := Nat.not_lt.1 (of_decide_eq_false h)

theorem rank_le_floor_of_not_weaker (h : p.weaker q = false) : q.rank ≤ p.floor := by
  have hrank := rank_le_of_not_weaker h
  unfold BindingPower.floor
  split
  · next hdefault =>
    subst hdefault
    exact hrank
  · omega

theorem Level.rank_pos (level : Level) : 0 < level.power.rank := by cases level <;> decide

theorem Level.rank_tighter {next : Level} (h : level.tighter? = some next) :
    next.power.rank = level.power.rank + 1 := by
  cases level <;> cases h <;> rfl

theorem Level.rank_tightest (h : level.tighter? = none) : level.power.rank = 6 := by
  cases level <;> cases h
  rfl

theorem Level.floor_power (level : Level) : level.power.floor = level.power.rank + 1 := by cases level <;> rfl

/-! ## Operators -/

theorem Level.ofToken_operator (h : (t.kind, t.value) ∈ level.operators) :
    BindingPower.ofToken t.kind = level.power ∧ t.kind ≠ .assignment ∧ t.kind ≠ .openParen ∧ t.kind ≠ .openBracket := by
  have kinds : ∀ level : Level, ∀ o ∈ level.operators,
      BindingPower.ofToken o.1 = level.power ∧ o.1 ≠ .assignment ∧ o.1 ≠ .openParen ∧ o.1 ≠ .openBracket := by
    intro level
    cases level <;> decide
  exact kinds level _ h

/-- the kinds of operators, with the spelling each has as a mark -/
theorem operator_kinds (k : TokenKind) (hp : BindingPower.default.weaker (BindingPower.ofToken k) = true)
    (hassign : k ≠ .assignment) (hparen : k ≠ .openParen) (hbracket : k ≠ .openBracket) :
    ∃ level : Level, ∃ m ∈ marks, m.2 = k ∧ (k, String.ofList m.1) ∈ level.operators := by
  have all : ∀ k ∈ TokenKind.all, BindingPower.default.weaker (BindingPower.ofToken k) = true → k ≠ .assignment →
      k ≠ .openParen → k ≠ .openBracket →
      ∃ level ∈ [Level.or, .and, .relational, .additive, .multiplicative],
        ∃ m ∈ marks, m.2 = k ∧ (k, String.ofList m.1) ∈ level.operators := by decide
  obtain ⟨level, _, h⟩ := all k (TokenKind.mem_all k) hp hassign hparen hbracket
  exact ⟨level, h⟩

/-- a token that binds what is before it, and is none of the marks with a rule of their own, is an operator -/
theorem exists_level (ht : t.Proper) (hp : p.weaker (BindingPower.ofToken t.kind) = true)
    (hassign : t.kind ≠ .assignment) (hparen : t.kind ≠ .openParen) (hbracket : t.kind ≠ .openBracket) :
    ∃ level : Level, (t.kind, t.value) ∈ level.operators := by
  have hdefault : BindingPower.default.weaker (BindingPower.ofToken t.kind) = true := by
    have hrank : p.rank < (BindingPower.ofToken t.kind).rank := of_decide_eq_true hp
    exact decide_eq_true (Nat.lt_of_le_of_lt (Nat.zero_le _) hrank)
  obtain ⟨level, m, hm, hkind, hoperator⟩ := operator_kinds t.kind hdefault hassign hparen hbracket
  rw [← ht.mark m hm hkind] at hoperator
  exact ⟨level, hoperator⟩

end Grammar

end TypedScript
