/-
Texts are sequences of characters and lists are sequences of values. The length of a text, the sum of two texts and the
element at an index belong to three instructions; they count the same characters, at both ends of every text and for
every index of 64 bits.

- `Value.itemAt_append_left`, `Value.itemAt_append_right`, `Value.itemAt_outside`: the element at an index.
- `Value.characters_append`, `Value.join_characters`: the characters of a text.
- `sequences_indexed`: lengths, sums and subscripts of texts, and lists gathered from the stack.
-/
import Mathlib.Algebra.Group.Nat.Defs
import TypedScript.Machine.Standard
import TypedScript.Proofs.Machine.Operators
import TypedScript.Proofs.Machine.Steady

/-- a difference with a length that is in range is the exact one -/
theorem Int64.toInt_sub_ofNat {i : Int64} {n : Nat} (h : n ≤ i.toInt) : (i - Int64.ofNat n).toInt = i.toInt - n := by
  have hi := i.toInt_lt
  rw [toInt_sub, toInt_ofNat_of_lt (by omega), Int.bmod_eq_of_le (by omega) (by omega)]

namespace TypedScript

/-! ## Elements -/

namespace Value

variable {φ : Type} {items more : List (Value φ)} {i : Int64}

theorem itemAt_negative (h : i.toInt < 0) : itemAt items i = none := by
  rw [itemAt, if_pos (Int64.lt_iff_toInt_lt.2 (Int64.toInt_zero.symm ▸ h))]

theorem itemAt_nonneg (h : 0 ≤ i.toInt) : itemAt items i = (items[i.toInt.toNat]?).getD none := by
  have hnot : ¬ i < 0 := by
    rw [Int64.lt_iff_toInt_lt, Int64.toInt_zero]
    omega
  rw [itemAt, if_neg hnot]

/-- there is no element below zero or from the length on -/
theorem itemAt_outside (h : i.toInt < 0 ∨ items.length ≤ i.toInt) : itemAt items i = none := by
  by_cases hneg : i.toInt < 0
  · exact itemAt_negative hneg
  · rw [itemAt_nonneg (by omega), List.getElem?_eq_none (by omega), Option.getD_none]

theorem getElem?_of_itemAt (hnonneg : 0 ≤ i.toInt) (hlt : i.toInt < items.length) :
    items[i.toInt.toNat]? = some (itemAt items i) := by
  have hbound : i.toInt.toNat < items.length := by omega
  rw [itemAt_nonneg hnonneg, List.getElem?_eq_getElem hbound, Option.getD_some]

theorem itemAt_append_left (h : i.toInt < items.length) : itemAt (items ++ more) i = itemAt items i := by
  by_cases hneg : i.toInt < 0
  · rw [itemAt_negative hneg, itemAt_negative hneg]
  · rw [itemAt_nonneg (by omega), itemAt_nonneg (by omega), List.getElem?_append_left (by omega)]

theorem itemAt_append_right (h : items.length ≤ i.toInt) :
    itemAt (items ++ more) i = itemAt more (i - Int64.ofNat items.length) := by
  have hsub := Int64.toInt_sub_ofNat h
  have hplace : i.toInt.toNat - items.length = (i.toInt - items.length).toNat := by omega
  rw [itemAt_nonneg (by omega), itemAt_nonneg (by omega), List.getElem?_append_right (by omega), hsub, hplace]

/-! ## Characters -/

/-- the characters of a text, each of them a text -/
def characters (text : String) : List (Value φ) := text.toList.map fun c => .str (String.singleton c)

@[simp] theorem length_characters (text : String) : (characters text : List (Value φ)).length = text.length := by
  rw [characters, List.length_map, String.length_toList]

theorem characters_append (a b : String) : (characters (a ++ b) : List (Value φ)) = characters a ++ characters b := by
  rw [characters, String.toList_append, List.map_append]
  rfl

theorem subscript_str (text : String) (i : Int64) :
    subscript (.str text : Value φ) (.int i) = .ok (itemAt (characters text) i) := rfl

theorem subscript_list (items : List (Value φ)) (i : Int64) :
    subscript (.list items) (.int i) = .ok (itemAt items i) := rfl

/-- each character of a text is a text of length one -/
theorem exists_of_getElem?_characters {text : String} {k : Nat} {v : Value φ} (h : (characters text)[k]? = some v) :
    ∃ c, v = .str c ∧ c.length = 1 := by
  obtain ⟨c, _, rfl⟩ := List.mem_map.1 (List.mem_of_getElem? h)
  exact ⟨_, rfl, String.length_singleton⟩

/-- the characters of a text one after another -/
theorem join_characters (text : String) : String.join (text.toList.map String.singleton) = text := by
  rw [← String.toList_inj, String.toList_join, List.flatMap_map]
  simp only [String.toList_singleton, List.flatMap_singleton']

theorem getElem?_characters {text c : String} {k : Nat}
    (h : (characters text : List (Value φ))[k]? = some (.str c)) : (text.toList.map String.singleton)[k]? = some c := by
  rw [characters, ← Function.comp_def Value.str, ← List.map_map, List.getElem?_map, Option.map_eq_some_iff] at h
  obtain ⟨found, hfound, hc⟩ := h
  rw [hfound, Value.str.inj hc]

end Value

/-! ## Instructions -/

namespace Run

variable {σ : Type} {host : Host σ}

/-- operands in the order in which they were pushed make an instruction leave a value in their place, and change nothing
else -/
def Gives (host : Host σ) (i : Instruction) (operands : List Value) (v : Value) : Prop :=
  ∀ (frame : FrameId) (stack : Operands) (m : Machine σ),
    execute host frame (operands.reverse ++ stack) i m = .ok (.next (v :: stack)) m

theorem gives_binary {op : BinaryOp} {v w u : Value} (h : op.apply v w = .ok u) : Gives host (.binary op) [v, w] u := by
  intro frame stack m
  exact (execute_binary host frame op v w stack m).trans (by rw [h])

theorem gives_subscript {target index u : Value} (h : target.subscript index = .ok u) :
    Gives host .subscript [target, index] u := by
  intro frame stack m
  exact (execute_subscript host frame target index stack m).trans (by rw [h])

theorem gives_makeList (items : List Value) : Gives host (.makeList items.length) items (.list items) := by
  intro frame stack m
  rw [execute, ofExcept_bind, Operands.popN_append]
  rfl

/-- a builtin is called after its arguments were pushed -/
theorem gives_builtin {b : Builtin} (arguments : List Value) {v : Value}
    (h : ∀ memory, host.respond b.id arguments memory = (.ok v, memory)) :
    Gives host (.dispatch arguments.length) (arguments ++ [.builtin b]) v := by
  intro frame stack m
  rw [List.reverse_append]
  refine (execute_builtin host frame b arguments.length (arguments.reverse ++ stack) m).trans ?_
  rw [Operands.popN_append]
  dsimp only
  rw [h]

end Run

/-! ## Sequences -/

variable {σ : Type}

/-- the length of a text as the machine's programs get it -/
theorem Run.gives_length (output : String → σ → σ) (respond : Nat → List Value → σ → Except String Value × σ)
    (store : Store) (text : String) :
    Gives (StandardFunction.host output respond store) (.dispatch 1) [.str text, .builtin StandardFunction.len.builtin]
      (.int (Int64.ofNat text.length)) :=
  gives_builtin [.str text] fun _ => rfl

/-- Texts and lists are sequences. The length of a sum is the sum of the lengths, and what a sum has at an index is what
the first text has there, or what the second has at the index less the length of the first; outside there is nothing.
Each element of a text is a text of length one, and all of them put together are the text. A list that was gathered from
the stack has at each index what was pushed there, counted from the first one pushed, and nothing at any other index. -/
theorem sequences_indexed (output : String → σ → σ) (respond : Nat → List Value → σ → Except String Value × σ)
    (store : Store) :
    let gives := Run.Gives (StandardFunction.host output respond store)
    let length text n := gives (.dispatch 1) [.str text, .builtin StandardFunction.len.builtin] (.int n)
    (∀ a b : String, ∃ la lb, length a la ∧ length b lb ∧
      gives (.binary .add) [.str a, .str b] (.str (a ++ b)) ∧ length (a ++ b) (la + lb) ∧
      (a.length < 2 ^ 63 → la.toInt = a.length) ∧
      ∀ i : Int64, ∃ v, gives .subscript [.str (a ++ b), .int i] v ∧
        (0 ≤ i.toInt ∧ i.toInt < a.length → gives .subscript [.str a, .int i] v) ∧
        (a.length ≤ i.toInt ∧ i.toInt < a.length + b.length → gives .subscript [.str b, .int (i - la)] v) ∧
        (i.toInt < 0 ∨ a.length + b.length ≤ i.toInt → v = .none)) ∧
    (∀ a : String, ∃ characters : List String, characters.length = a.length ∧ String.join characters = a ∧
      ∀ i : Int64, (∃ c, gives .subscript [.str a, .int i] (.str c) ∧ length c 1 ∧
          0 ≤ i.toInt ∧ characters[i.toInt.toNat]? = some c) ∨
        (gives .subscript [.str a, .int i] .none ∧ (i.toInt < 0 ∨ a.length ≤ i.toInt))) ∧
    (∀ items : List Value, gives (.makeList items.length) items (.list items) ∧
      ∀ i : Int64, ∃ v, gives .subscript [.list items, .int i] v ∧
        (0 ≤ i.toInt ∧ i.toInt < items.length → items[i.toInt.toNat]? = some v) ∧
        (i.toInt < 0 ∨ items.length ≤ i.toInt → v = .none)) := by
  intro gives length
  have hlength (text : String) : length text (Int64.ofNat text.length) := Run.gives_length output respond store text
  have hstr (text : String) (i : Int64) :
      gives .subscript [.str text, .int i] (Value.itemAt (Value.characters text) i) :=
    Run.gives_subscript (Value.subscript_str text i)
  refine ⟨fun a b => ?_, fun a => ?_, fun items => ?_⟩
  · refine ⟨Int64.ofNat a.length, Int64.ofNat b.length, hlength a, hlength b,
      Run.gives_binary (BinaryOp.apply_add_str a b),
      ?_, Int64.toInt_ofNat_of_lt, fun i => ⟨Value.itemAt (Value.characters (a ++ b)) i, hstr (a ++ b) i, ?_, ?_, ?_⟩⟩
    · rw [← Int64.ofNat_add, ← String.length_append]
      exact hlength (a ++ b)
    all_goals rw [Value.characters_append]
    · intro hi
      rw [Value.itemAt_append_left (by rw [Value.length_characters]; exact hi.2)]
      exact hstr a i
    · intro hi
      rw [Value.itemAt_append_right (by rw [Value.length_characters]; exact hi.1), Value.length_characters]
      exact hstr b (i - Int64.ofNat a.length)
    · intro hi
      refine Value.itemAt_outside ?_
      rw [List.length_append, Value.length_characters, Value.length_characters]
      exact hi
  · refine ⟨a.toList.map String.singleton, by rw [List.length_map, String.length_toList], Value.join_characters a,
      fun i => ?_⟩
    by_cases hi : 0 ≤ i.toInt ∧ i.toInt < a.length
    · have hfound : (Value.characters a)[i.toInt.toNat]? = some (Value.itemAt (Value.characters a : List Value) i) :=
        Value.getElem?_of_itemAt hi.1 (by rw [Value.length_characters]; exact hi.2)
      obtain ⟨c, hc, hone⟩ := Value.exists_of_getElem?_characters hfound
      rw [hc] at hfound
      refine Or.inl ⟨c, hc ▸ hstr a i, ?_, hi.1, Value.getElem?_characters hfound⟩
      have hlen := hlength c
      rw [hone] at hlen
      exact hlen
    · have houtside : i.toInt < 0 ∨ (Value.characters a : List Value).length ≤ i.toInt := by
        rw [Value.length_characters]
        omega
      refine Or.inr ⟨Value.itemAt_outside houtside ▸ hstr a i, ?_⟩
      omega
  · refine ⟨Run.gives_makeList items,
      fun i => ⟨Value.itemAt items i, Run.gives_subscript (Value.subscript_list items i),
      fun hi => Value.getElem?_of_itemAt hi.1 hi.2, Value.itemAt_outside⟩⟩

/-- a letter of two bytes before another letter: the index of the other is one -/
theorem sequences_indexed_accented :
    let gives := Run.Gives
      (StandardFunction.host (fun _ (memory : Unit) => memory) (fun _ _ memory => (.ok .none, memory)) .empty)
    ∃ la v, gives (.dispatch 1) [.str "é", .builtin StandardFunction.len.builtin] (.int la) ∧ la.toInt = 1 ∧
      gives .subscript [.str ("é" ++ "b"), .int 1] v ∧ gives .subscript [.str "b", .int (1 - la)] v := by
  intro gives
  obtain ⟨htexts, _⟩ :=
    sequences_indexed (fun _ (memory : Unit) => memory) (fun _ _ memory => (.ok .none, memory)) .empty
  obtain ⟨la, _, hla, _, _, _, hexact, helements⟩ := htexts "é" "b"
  obtain ⟨v, hv, _, hsecond, _⟩ := helements 1
  exact ⟨la, v, hla, hexact (by decide), hv, hsecond (by decide)⟩

end TypedScript
