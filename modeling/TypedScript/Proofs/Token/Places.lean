/-
Places in a text. Behind a text stands one line for each line feed in it, and one column for each character since the
last of them (`Position.exact`). A reader counts both with 32 bits, so that behind a text it stands at these numbers
modulo `2 ^ 32` (`Position.behind`): at the numbers themselves as long as no line and no column in the text is past what
a counter holds (`Position.Fits`), and then what stands earlier in the text has an earlier position.

- `Position.after_first`: reading a text from its beginning leads to the position behind it.
- `Position.Fits.behind_eq`: on a text that fits, the counters hold the exact numbers.
- `Position.Fits.ofPlace_le`: on a text that fits, an earlier place has an earlier position.
-/
import Mathlib.Data.List.Induction
import TypedScript.Source

namespace TypedScript

namespace Position

variable {before text : List Char} {i j : Nat}

/-! ## Counting -/

/-- the line and the column behind a text, in numbers without a bound -/
def exact (text : List Char) : Position :=
  ⟨text.count '\n' + 1, (text.reverse.takeWhile (· ≠ '\n')).length + 1⟩

/-- the position behind a text: its line and its column as counters of 32 bits have them -/
def behind (text : List Char) : Position :=
  ⟨(exact text).line % UInt32.size, (exact text).column % UInt32.size⟩

theorem exact_append_singleton (text : List Char) (c : Char) :
    exact (text ++ [c]) =
      if c = '\n' then ⟨(exact text).line + 1, 1⟩ else ⟨(exact text).line, (exact text).column + 1⟩ := by
  by_cases hc : c = '\n' <;> simp [exact, hc]

theorem after_first (text : List Char) : first.after text = behind text := by
  induction text using List.reverseRecOn with
  | nil => rfl
  | append_singleton text c ih =>
    rw [after_append, ih, after_cons, after_nil, next, behind, behind, exact_append_singleton]
    by_cases hc : c = '\n'
    · simp [hc, count]
    · simp [hc, count]

theorem behind_after (before text : List Char) : (behind before).after text = behind (before ++ text) := by
  rw [← after_first, ← after_first, after_append]

/-- no line and no column in a text is past what a counter of 32 bits holds -/
def Fits (text : List Char) : Prop :=
  ∀ before, before <+: text → (exact before).line < UInt32.size ∧ (exact before).column < UInt32.size

theorem Fits.behind_eq (h : Fits text) (hbefore : before <+: text) : behind before = exact before := by
  obtain ⟨hline, hcolumn⟩ := h before hbefore
  rw [behind, Nat.mod_eq_of_lt hline, Nat.mod_eq_of_lt hcolumn]

instance : LE Position := ⟨fun p q => p.line < q.line ∨ p.line = q.line ∧ p.column ≤ q.column⟩

theorem le_iff {p q : Position} : p ≤ q ↔ p.line < q.line ∨ p.line = q.line ∧ p.column ≤ q.column := Iff.rfl

instance (p q : Position) : Decidable (p ≤ q) := decidable_of_iff' _ le_iff

@[simp] theorem le_refl (p : Position) : p ≤ p := by simp [le_iff]

theorem le_trans {p q r : Position} (hpq : p ≤ q) (hqr : q ≤ r) : p ≤ r := by
  rw [le_iff] at *
  omega

theorem exact_le_append (before text : List Char) : exact before ≤ exact (before ++ text) := by
  induction text using List.reverseRecOn with
  | nil => simp
  | append_singleton text c ih =>
    refine le_trans ih ?_
    rw [← List.append_assoc, exact_append_singleton]
    split <;> simp [le_iff]

/-- the position of the character that has `i` others before it in a text -/
def ofPlace (text : List Char) (i : Nat) : Position := behind (text.take i)

theorem ofPlace_length (h : before <+: text) : ofPlace text before.length = behind before := by
  rw [ofPlace, ← List.prefix_iff_eq_take.1 h]

theorem Fits.ofPlace_le (h : Fits text) (hij : i ≤ j) : ofPlace text i ≤ ofPlace text j := by
  have hfront : text.take i <+: text.take j := List.take_prefix_take_left hij
  obtain ⟨between, hbetween⟩ := hfront
  rw [ofPlace, ofPlace, h.behind_eq (List.take_prefix i text), h.behind_eq (List.take_prefix j text), ← hbetween]
  exact exact_le_append _ between

end Position

end TypedScript
